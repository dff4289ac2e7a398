import WebTunnel.Device.Connecting
import WebTunnel.Device.Writing

/-! Writing in pieces: a coroutine that writes to a socket in the LAN goes on, whenever it is
called again, behind the last byte that the socket has taken. -/

namespace WebTunnel.Device.Resuming
open Library.Bytes Library.Lists Library.Routines Library.Routines.Routine Function Device.Types Buffers Pool Http Forward Manager Writing

/-- The coroutines that write to a socket in the LAN. -/
inductive Writer where
  | http (c : CtxId)
  | forward (f : FwdId)

namespace Writer

def owner : Writer → Owner
  | http c => .http c
  | forward f => .forward f

def queue : Writer → BufHead
  | http c => .writeTodo c
  | forward f => .fwdWrite f

def code : Writer → DevM CallerStatus
  | http c => httpContextWrite c
  | forward f => tcpForwardWrite f

def loop : Writer → Nat → DevM CallerStatus
  | http c => writeLoop c
  | forward f => forwardWriteLoop f

def wrote : Writer → BufId → Int → DevM (Option CallerStatus)
  | http c => wroteBytes c
  | forward f => forwardWrote f

def line : Writer → HttpMgmt → CcrLine
  | http c, d => (d.ctxs c).line
  | forward f, d => (d.forwards f).line

def curr : Writer → HttpMgmt → Option BufId
  | http c, d => (d.ctxs c).bufWrite.curr
  | forward f, d => (d.forwards f).bufWrite.curr

def pfd : Writer → HttpMgmt → Option Nat
  | http c, d => (d.ctxs c).pfd
  | forward f, d => (d.forwards f).pfd

def funcRun : Writer → HttpMgmt → FuncRun
  | http c, d => (d.ctxs c).funcRun
  | forward f, d => (d.forwards f).funcRun

def setLine : Writer → HttpMgmt → CcrLine → HttpMgmt
  | http c, d, line => d.setCtx c { d.ctxs c with line }
  | forward f, d, line => d.setForward f { d.forwards f with line }

def setCurr : Writer → HttpMgmt → Option BufId → HttpMgmt
  | http c, d, curr => d.setCtx c { d.ctxs c with bufWrite := { (d.ctxs c).bufWrite with curr } }
  | forward f, d, curr => d.setForward f { d.forwards f with bufWrite := { (d.forwards f).bufWrite with curr } }

section
variable (W : Writer) (d : HttpMgmt) (line : CcrLine) (curr : Option BufId)

@[simp] theorem setLine_bufs : (W.setLine d line).bufs = d.bufs := by cases W <;> rfl
@[simp] theorem setLine_acts : (W.setLine d line).acts = d.acts := by cases W <;> rfl
@[simp] theorem setLine_replies : (W.setLine d line).replies = d.replies := by cases W <;> rfl
@[simp] theorem setLine_line : W.line (W.setLine d line) = line := by
  cases W <;> simp [setLine, Writer.line, HttpMgmt.setCtx, HttpMgmt.setForward]
@[simp] theorem setLine_curr : W.curr (W.setLine d line) = W.curr d := by cases W <;> simp [setLine, Writer.curr, HttpMgmt.setCtx, HttpMgmt.setForward]
@[simp] theorem setLine_pfd : W.pfd (W.setLine d line) = W.pfd d := by cases W <;> simp [setLine, pfd, HttpMgmt.setCtx, HttpMgmt.setForward]
@[simp] theorem setLine_funcRun : W.funcRun (W.setLine d line) = W.funcRun d := by cases W <;> simp [setLine, funcRun, HttpMgmt.setCtx, HttpMgmt.setForward]

@[simp] theorem setCurr_bufs : (W.setCurr d curr).bufs = d.bufs := by cases W <;> rfl
@[simp] theorem setCurr_acts : (W.setCurr d curr).acts = d.acts := by cases W <;> rfl
@[simp] theorem setCurr_replies : (W.setCurr d curr).replies = d.replies := by cases W <;> rfl
@[simp] theorem setCurr_curr : W.curr (W.setCurr d curr) = curr := by cases W <;> simp [setCurr, Writer.curr, HttpMgmt.setCtx, HttpMgmt.setForward]
@[simp] theorem setCurr_pfd : W.pfd (W.setCurr d curr) = W.pfd d := by cases W <;> simp [setCurr, pfd, HttpMgmt.setCtx, HttpMgmt.setForward]
@[simp] theorem setCurr_funcRun : W.funcRun (W.setCurr d curr) = W.funcRun d := by cases W <;> simp [setCurr, funcRun, HttpMgmt.setCtx, HttpMgmt.setForward]

end

section
variable (W : Writer) (d : HttpMgmt) (b : BufId) (info : BufInfo)

@[simp] theorem setBuf_line : W.line (d.setBuf b info) = W.line d := by cases W <;> rfl
@[simp] theorem setBuf_curr : W.curr (d.setBuf b info) = W.curr d := by cases W <;> rfl
@[simp] theorem setBuf_pfd : W.pfd (d.setBuf b info) = W.pfd d := by cases W <;> rfl
@[simp] theorem setBuf_funcRun : W.funcRun (d.setBuf b info) = W.funcRun d := by cases W <;> rfl

end
end Writer

/-- The bytes of a buffer that have yet to be written. -/
def left (info : BufInfo) : List Byte := info.buf.slice info.start.toNat info.len.toNat

/-- They lie inside of the buffer. -/
structure Inside (info : BufInfo) : Prop where
  start : 0 ≤ info.start
  len : 0 ≤ info.len
  room : info.start + info.len ≤ bufRoom

/-- A buffer of which some bytes were taken. -/
def taken (info : BufInfo) (n : Int) : BufInfo := { info with len := info.len - n, start := info.start + n }

/-- An answer to a call of `write` that is not a fatal error: some of the bytes are taken, or the
call is to be made again. -/
def Legal (size : Nat) : Reply → Prop
  | .fail e => e = .again ∨ e = .intr
  | r => 0 < r.count ∧ 0 < size

/-- The answers to the calls of a loop that goes on as long as buffers are taken whole. -/
def Fair : List Nat → List Reply → Prop
  | [], _ => True
  | size :: rest, replies =>
    Legal size (replies.headD (.fail .again)) ∧ (Takes size (replies.headD (.fail .again)) → Fair rest replies.tail)

section
variable {info : BufInfo} {n : Nat}

@[simp] theorem left_length (info : BufInfo) : (left info).length = info.len.toNat := Mem.slice_length _ _ _

theorem inside_taken (inside : Inside info) (part : (n : Int) ≤ info.len) : Inside (taken info n) := by
  have start := inside.start
  have room := inside.room
  constructor <;> simp only [taken] <;> omega

/-- What was taken and what is left make up what was left before. -/
theorem take_append_left (inside : Inside info) (part : (n : Int) ≤ info.len) :
    (left info).take n ++ left (taken info n) = left info := by
  have start := inside.start
  have split : info.len.toNat = n + (info.len - n).toNat := by omega
  have behind : (info.start + n).toNat = info.start.toNat + n := by omega
  have whole := Mem.slice_add info.buf info.start.toNat n (info.len - n).toNat
  rw [← split, ← behind] at whole
  change left info = _ ++ left (taken info n) at whole
  rw [whole, List.take_left' (Mem.slice_length _ _ _)]

end

/-! What is queued for a writer. -/

/-- A writer that is between two calls of `write`. -/
structure Midst (W : Writer) (l : List BufId) (w : DevState) : Prop where
  list : w.rings.items W.queue = some l
  curr : W.curr w.data = l.head?
  pool : ∃ free, w.rings.items .caches = some free
  inside : ∀ b ∈ l, Inside (w.data.bufs b)
  pfd : W.pfd w.data ≠ none
  funcRun : W.funcRun w.data = .write

/-- All that the buffers have yet to give. -/
def pending (d : HttpMgmt) (l : List BufId) : List Byte := l.flatMap fun b => left (d.bufs b)

/-- The first buffers were written and went back to the pool, the socket took the given bytes, and
what is left is what follows them. -/
structure Wrote (W : Writer) (done later : List BufId) (sent : List Byte) (w v : DevState) : Prop where
  list : v.rings.items W.queue = some later
  freed : ∀ free, w.rings.items .caches = some free → v.rings.items .caches = some (done.reverse ++ free)
  written : written W.owner v.data.acts = written W.owner w.data.acts ++ sent
  behind : ∃ part, sent = pending w.data done ++ part ∧ part ++ pending v.data later = pending w.data later
  inside : ∀ b ∈ later, Inside (v.data.bufs b)
  suffix : ∀ b ∈ later, left (v.data.bufs b) <:+ left (w.data.bufs b)
  unfinished : ∀ b ∈ later, 0 < (w.data.bufs b).len → 0 < (v.data.bufs b).len
  pfd : W.pfd v.data = W.pfd w.data

/-- A writer that is to go on with the first buffer when it is called again. -/
structure Suspended (W : Writer) (l : List BufId) (w : DevState) : Prop extends Midst W l w where
  line : W.line w.data = .partly ∨ W.line w.data = .again
  some_left : l ≠ []

section
variable {W : Writer} {b : BufId} {l rest later done done' : List BufId} {sent sent' : List Byte} {n : Nat} {w u v : DevState}
  {err : Fault → Prop}

/-! One call of `write`. -/

theorem pending_cons (d : HttpMgmt) (b : BufId) (rest : List BufId) :
    pending d (b :: rest) = left (d.bufs b) ++ pending d rest := List.flatMap_cons

theorem pending_congr {d d' : HttpMgmt} (same : ∀ b ∈ l, d'.bufs b = d.bufs b) : pending d' l = pending d l := by
  apply List.flatMap_congr
  intro b member
  rw [same b member]

theorem Wrote.total (wrote : Wrote W done later sent w v) : sent ++ pending v.data later = pending w.data (done ++ later) := by
  obtain ⟨part, start, rest⟩ := wrote.behind
  calc sent ++ pending v.data later
    _ = pending w.data done ++ (part ++ pending v.data later) := by rw [start, List.append_assoc]
    _ = pending w.data (done ++ later) := by rw [rest, pending, pending, pending, List.flatMap_append]

/-- Before the first of these buffers another one was written. -/
theorem Wrote.after (second : Wrote W done later sent' u v) (first : Wrote W [b] (done ++ later) sent w u)
    (others : ∀ b' ∈ done ++ later, u.data.bufs b' = w.data.bufs b') :
    Wrote W (b :: done) later (left (w.data.bufs b) ++ sent') w v := by
  have same : ∀ b' ∈ later, u.data.bufs b' = w.data.bufs b' := fun b' member => others b' (List.mem_append_right done member)
  have own : sent = left (w.data.bufs b) := by
    have total := first.total
    rw [pending_congr others, List.singleton_append, pending_cons] at total
    exact List.append_cancel_right total
  constructor
  case list => exact second.list
  case freed =>
    intro free found
    rw [second.freed _ (first.freed free found)]
    simp
  case written => rw [second.written, first.written, own, List.append_assoc]
  case behind =>
    obtain ⟨part, start, rest⟩ := second.behind
    refine ⟨part, ?_, ?_⟩
    · rw [start, pending_cons, pending_congr fun b' member => others b' (List.mem_append_left later member), List.append_assoc]
    · rw [rest, pending_congr same]
  case inside => exact second.inside
  case suffix =>
    intro b' member
    rw [← same b' member]
    exact second.suffix b' member
  case unfinished =>
    intro b' member some
    apply second.unfinished b' member
    rwa [same b' member]
  case pfd => exact second.pfd.trans first.pfd

/-- Bytes of the first buffer were taken, but not all. -/
theorem wp_wrote_part {post : Option CallerStatus → DevState → Prop} {n : Int} (more : 0 < (w.data.bufs b).len - n)
    (next : post (some .pending) ⟨W.setLine (w.data.setBuf b (taken (w.data.bufs b) n)) .partly, w.rings⟩) :
    Wp (W.wrote b n) post err w := by
  cases W with
  | http c =>
    rw [Writer.wrote, wroteBytes, wp_bind, wp_getBuf, wp_bind, wp_setBuf, wp_ite, if_pos more, wp_bind, wp_getBuf, wp_bind,
      wp_setBuf, setBuf_bufs, setBuf_setBuf]
    exact next
  | forward f =>
    rw [Writer.wrote, forwardWrote, wp_bind, wp_getBuf, wp_bind, wp_setBuf, wp_ite, if_pos more, wp_bind, wp_getBuf, wp_bind,
      wp_setBuf, setBuf_bufs, setBuf_setBuf]
    exact next

/-- The first buffer of a queue goes back to the pool, and the next one is looked up. -/
theorem wp_leave {α : Type} {next : Option BufId → DevM α} {post : α → DevState → Prop} {free : List BufId}
    (list : w.rings.items W.queue = some (b :: rest)) (pool : w.rings.items .caches = some free)
    (after : ∀ R, R.items W.queue = some rest → R.items .caches = some (b :: free) →
      Wp (next rest.head?) post err { w with rings := R }) :
    Wp (do listDel b; freeBuf (some b); next (← nextBufInfo W.queue)) post err w := by
  have sits : w.rings.home b = some W.queue := Rings.home_of_mem list List.mem_cons_self
  have other : BufHead.caches ≠ W.queue := by cases W <;> simp [Writer.queue]
  rw [wp_bind]
  apply wp_del_of_home list sits
  intro R items home
  rw [List.erase_cons_head] at items
  have pool' : R.items .caches = some free := by rw [items, update_of_ne other, pool]
  have away : R.home b = none := by rw [home, update_self]
  rw [wp_bind]
  apply wp_freeBuf_of_free pool' away
  intro S items' _
  have list' : S.items W.queue = some rest := by rw [items', update_of_ne other.symm, items, update_self]
  have pool'' : S.items .caches = some (b :: free) := by rw [items', update_self]
  rw [wp_bind, nextBufInfo, wp_head]
  refine ⟨fun l found => ?_, fun none => by cases list'.symm.trans none⟩
  cases list'.symm.trans found
  exact after S list' pool''

/-- A buffer of which everything was taken leaves the queue. -/
theorem wp_wrote_whole {post : Option CallerStatus → DevState → Prop} {n : Int} {free : List BufId}
    (list : w.rings.items W.queue = some (b :: rest)) (pool : w.rings.items .caches = some free)
    (whole : (w.data.bufs b).len = n)
    (next : ∀ R, R.items W.queue = some rest → R.items .caches = some (b :: free) →
      post none ⟨W.setCurr (w.data.setBuf b { w.data.bufs b with len := 0 }) rest.head?, R⟩) :
    Wp (W.wrote b n) post err w := by
  cases W with
  | http c =>
    rw [Writer.wrote, wroteBytes, wp_bind, wp_getBuf, wp_bind, wp_setBuf, whole, Int.sub_self, wp_ite, if_neg (lt_irrefl 0)]
    exact wp_leave (W := .http c) (w := ⟨_, w.rings⟩) list pool next
  | forward f =>
    rw [Writer.wrote, forwardWrote, wp_bind, wp_getBuf, wp_bind, wp_setBuf, whole, Int.sub_self, wp_ite, if_neg (lt_irrefl 0)]
    exact wp_leave (W := .forward f) (w := ⟨_, w.rings⟩) list pool next

end

/-- The socket has taken bytes, and nothing was made of it as yet. -/
structure Accepted (W : Writer) (sent : List Byte) (w u : DevState) : Prop where
  rings : u.rings = w.rings
  bufs : u.data.bufs = w.data.bufs
  written : written W.owner u.data.acts = written W.owner w.data.acts ++ sent
  curr : W.curr u.data = W.curr w.data
  pfd : W.pfd u.data = W.pfd w.data
  funcRun : W.funcRun u.data = W.funcRun w.data

section
variable {W : Writer} {b : BufId} {l rest : List BufId} {n count : Nat} {w u v : DevState} {err : Fault → Prop}

theorem accepted_nothing : Accepted W [] w w := ⟨rfl, rfl, (List.append_nil _).symm, rfl, rfl, rfl⟩

/-- What is made of the bytes that were taken: the writer is suspended where some of the buffer is
left, and otherwise it goes on with the next buffer. -/
theorem wp_wrote (midst : Midst W (b :: rest) w) (accepted : Accepted W ((left (w.data.bufs b)).take n) w u)
    (fits : (n : Int) ≤ (w.data.bufs b).len) :
    Wp (W.wrote b n) (fun status v => v.data.replies = u.data.replies ∧
      if (n : Int) < (w.data.bufs b).len then
        status = some .pending ∧ Suspended W (b :: rest) v ∧
          Wrote W [] (b :: rest) ((left (w.data.bufs b)).take n) w v
      else status = none ∧ Midst W rest v ∧ Wrote W [b] rest (left (w.data.bufs b)) w v ∧
        ∀ b' ∈ rest, v.data.bufs b' = w.data.bufs b') err u := by
  obtain ⟨rings, bufs, written, curr, pfd, funcRun⟩ := accepted
  have inside := midst.inside b List.mem_cons_self
  have apart : b ∉ rest := (List.nodup_cons.mp (w.rings.nodup _ _ midst.list)).1
  have others (b' : BufId) (member : b' ∈ rest) (info : BufInfo) :
      (u.data.setBuf b info).bufs b' = w.data.bufs b' := by
    have other : b' ≠ b := fun same => apart (same ▸ member)
    rw [setBuf_bufs_of_ne _ _ other, bufs]
  by_cases more : (n : Int) < (w.data.bufs b).len
  · apply wp_wrote_part (by rw [bufs]; omega)
    refine ⟨by simp [HttpMgmt.setBuf], ?_⟩
    rw [if_pos more]
    have own : (W.setLine (u.data.setBuf b (taken (u.data.bufs b) n)) .partly).bufs b = taken (w.data.bufs b) n := by
      rw [Writer.setLine_bufs, setBuf_bufs, bufs]
    have same (b' : BufId) (member : b' ∈ rest) :
        (W.setLine (u.data.setBuf b (taken (u.data.bufs b) n)) .partly).bufs b' = w.data.bufs b' := by
      rw [Writer.setLine_bufs, others b' member]
    have tail : pending (W.setLine (u.data.setBuf b (taken (u.data.bufs b) n)) .partly) rest = pending w.data rest :=
      pending_congr same
    have inside' : ∀ b' ∈ b :: rest, Inside ((W.setLine (u.data.setBuf b (taken (u.data.bufs b) n)) .partly).bufs b') := by
      intro b' member
      rcases List.mem_cons.mp member with rfl | member
      · rw [own]
        exact inside_taken inside fits
      · rw [same b' member]
        exact midst.inside b' (List.mem_cons_of_mem b member)
    refine ⟨rfl, ⟨⟨?_, ?_, ?_, inside', ?_, ?_⟩, ?_, by simp⟩, ?_⟩
    · exact (congrArg (Rings.items · W.queue) rings).trans midst.list
    · simpa [curr] using midst.curr
    · rw [rings]
      exact midst.pool
    · simpa [pfd] using midst.pfd
    · simpa [funcRun] using midst.funcRun
    · exact .inl (by simp)
    · constructor
      case list => exact (congrArg (Rings.items · W.queue) rings).trans midst.list
      case freed =>
        intro free found
        rw [rings, found]
        rfl
      case written => simpa [HttpMgmt.setBuf] using written
      case behind =>
        refine ⟨_, rfl, ?_⟩
        rw [pending_cons, own, tail, pending_cons, ← List.append_assoc, take_append_left inside fits]
      case inside => exact inside'
      case suffix =>
        intro b' member
        rcases List.mem_cons.mp member with rfl | member
        · rw [own]
          exact ⟨_, take_append_left inside fits⟩
        · rw [same b' member]
      case unfinished =>
        intro b' member some
        rcases List.mem_cons.mp member with rfl | member
        · rw [own]
          exact Int.sub_pos.mpr more
        · rwa [same b' member]
      case pfd => simpa using pfd
  · obtain ⟨free, pool⟩ := midst.pool
    have all : (left (w.data.bufs b)).take n = left (w.data.bufs b) := by
      apply List.take_of_length_le
      rw [left_length]
      omega
    have stays : u.rings.items .caches = some free := by rw [rings, pool]
    have queued : u.rings.items W.queue = some (b :: rest) := by rw [rings, midst.list]
    apply wp_wrote_whole queued stays
    · rw [bufs]
      omega
    intro R list pool'
    refine ⟨by simp [HttpMgmt.setBuf], ?_⟩
    rw [if_neg more]
    have same (b' : BufId) (member : b' ∈ rest) :
        (W.setCurr (u.data.setBuf b { u.data.bufs b with len := 0 }) rest.head?).bufs b' = w.data.bufs b' := by
      rw [Writer.setCurr_bufs, others b' member]
    have inside' : ∀ b' ∈ rest, Inside ((W.setCurr (u.data.setBuf b { u.data.bufs b with len := 0 }) rest.head?).bufs b') := by
      intro b' member
      rw [same b' member]
      exact midst.inside b' (List.mem_cons_of_mem b member)
    refine ⟨rfl, ⟨list, by simp, ⟨_, pool'⟩, inside', ?_, ?_⟩, ?_, same⟩
    · simpa [pfd] using midst.pfd
    · simpa [funcRun] using midst.funcRun
    · constructor
      case list => exact list
      case freed =>
        intro free' found
        cases pool.symm.trans found
        exact pool'
      case written => simpa [HttpMgmt.setBuf, all] using written
      case behind => exact ⟨[], by simp [pending], pending_congr same⟩
      case inside => exact inside'
      case suffix =>
        intro b' member
        rw [same b' member]
      case unfinished =>
        intro b' member some
        rwa [same b' member]
      case pfd => simpa using pfd

end

/-- What one call of a writer, or the rest of it, makes of the queue. -/
structure Resumed (W : Writer) (l done later : List BufId) (sent : List Byte) (status : CallerStatus)
    (w v : DevState) : Prop where
  split : l = done ++ later
  wrote : Wrote W done later sent w v
  waits : later ≠ [] → status = .pending ∧ Suspended W later v
  ends : later = [] → status = .pending ∧ W.funcRun v.data = .read

def sizes (d : HttpMgmt) (l : List BufId) : List Nat := l.map fun b => (left (d.bufs b)).length

section
variable {W : Writer} {b : BufId} {l rest : List BufId} {n count : Nat} {w u v : DevState} {err : Fault → Prop}
  {bytes : List Byte} {post : Int → DevState → Prop}

theorem resumed_of_suspended {sent : List Byte} (suspended : Suspended W l v) (wrote : Wrote W [] l sent w v) :
    Resumed W l [] l sent .pending w v :=
  ⟨rfl, wrote, fun _ => ⟨rfl, suspended⟩, fun none => absurd none suspended.some_left⟩

/-- Before a call went on with the next buffer it wrote the first. -/
theorem Resumed.after {done later : List BufId} {sent sent' : List Byte} {status : CallerStatus}
    (resumed : Resumed W rest done later sent' status u v) (wrote : Wrote W [b] rest sent w u)
    (others : ∀ b' ∈ rest, u.data.bufs b' = w.data.bufs b') :
    Resumed W (b :: rest) (b :: done) later (left (w.data.bufs b) ++ sent') status w v := by
  obtain ⟨rfl, wrote', waits, ends⟩ := resumed
  exact ⟨rfl, wrote'.after wrote others, waits, ends⟩

/-- A call that took nothing is to be made again. -/
theorem resumed_of_nothing (midst : Midst W (b :: rest) w) (accepted : Accepted W [] w u) :
    Resumed W (b :: rest) [] (b :: rest) [] .pending w ⟨W.setLine u.data .again, u.rings⟩ := by
  obtain ⟨rings, bufs, written, curr, pfd, funcRun⟩ := accepted
  have list : u.rings.items W.queue = some (b :: rest) := by rw [rings, midst.list]
  have inside : ∀ b' ∈ b :: rest, Inside ((W.setLine u.data .again).bufs b') := by
    intro b' member
    rw [Writer.setLine_bufs, bufs]
    exact midst.inside b' member
  apply resumed_of_suspended
  · refine ⟨⟨list, ?_, ?_, inside, ?_, ?_⟩, ?_, by simp⟩
    · rw [Writer.setLine_curr, curr, midst.curr]
    · rw [rings]
      exact midst.pool
    · rw [Writer.setLine_pfd, pfd]
      exact midst.pfd
    · rw [Writer.setLine_funcRun, funcRun, midst.funcRun]
    · exact .inr (Writer.setLine_line W u.data .again)
  · constructor
    case list => exact list
    case freed =>
      intro free found
      rw [rings, found]
      rfl
    case written => rw [Writer.setLine_acts, written]
    case behind => exact ⟨[], rfl, pending_congr fun b' _ => by rw [Writer.setLine_bufs, bufs]⟩
    case inside => exact inside
    case suffix =>
      intro b' _
      rw [Writer.setLine_bufs, bufs]
    case unfinished =>
      intro b' _ some
      rwa [Writer.setLine_bufs, bufs]
    case pfd => rw [Writer.setLine_pfd, pfd]

/-- Either nothing was taken and the call is to be made again, or some of the bytes were. -/
theorem wp_sysWrite_legal (legal : Legal (left (w.data.bufs b)).length (w.data.replies.headD (.fail .again)))
    (again : ∀ e, (e = .intr ∨ e = .again) → post (-1)
      { w with data := { w.data with replies := w.data.replies.tail, errno := e } })
    (some : ∀ n u, 0 < n → n ≤ (left (w.data.bufs b)).length → Accepted W ((left (w.data.bufs b)).take n) w u →
      u.data.replies = w.data.replies.tail →
      (n = (left (w.data.bufs b)).length → Takes (left (w.data.bufs b)).length (w.data.replies.headD (.fail .again))) →
      post n u) : Wp (sysWrite W.owner (left (w.data.bufs b))) post err w := by
  rw [sysWrite, wp_bind, reply, wp_bind, wp_data, wp_bind, wp_modify, wp_pure]
  cases answer : w.data.replies.headD (.fail .again) with
  | fail e =>
    rw [answer] at legal
    exact again e legal.symm
  | value n | data sent =>
    rw [answer] at legal
    obtain ⟨positive, filled⟩ := legal
    have accepted (n : Nat) : Accepted W ((left (w.data.bufs b)).take n) w ⟨{ w.data with
        replies := w.data.replies.tail
        acts := .write W.owner ((left (w.data.bufs b)).take n) :: w.data.acts }, w.rings⟩ := by
      constructor
      case rings => rfl
      case bufs => rfl
      case written =>
        refine (written_cons _ _ _).trans (congrArg _ ?_)
        exact if_pos rfl
      all_goals cases W <;> rfl
    rw [wp_bind, wp_note, wp_pure, ← Nat.cast_min]
    apply some _ _ (Nat.lt_min.mpr ⟨positive, filled⟩) (Nat.min_le_right _ _) _ rfl
    · intro whole
      rw [answer]
      exact min_eq_right_iff.mp whole
    · rw [List.take_eq_take_min (i := Reply.count _)]
      exact accepted _

/-- With nothing more to write the writer begins to read. -/
theorem wp_loop_nil (midst : Midst W [] w) :
    Wp (W.loop (count + 1)) (fun status v => Resumed W [] [] [] [] status w v) (fun _ => False) w := by
  have done {v : DevState} (list : v.rings.items W.queue = some []) (pool : v.rings.items .caches = w.rings.items .caches)
      (acts : written W.owner v.data.acts = written W.owner w.data.acts) (pfd : W.pfd v.data = W.pfd w.data)
      (read : W.funcRun v.data = .read) : Resumed W [] [] [] [] .pending w v := by
    refine ⟨rfl, ?_, fun some => absurd rfl some, fun _ => ⟨rfl, read⟩⟩
    constructor
    case list => exact list
    case freed => exact fun free found => pool.trans found
    case written => rw [acts, List.append_nil]
    case behind => exact ⟨[], rfl, rfl⟩
    case inside => simp
    case suffix => simp
    case unfinished => simp
    case pfd => exact pfd
  obtain ⟨free, pool⟩ := midst.pool
  cases W with
  | http c =>
    have current : (w.data.ctxs c).bufWrite.curr = none := midst.curr
    rw [Writer.loop, writeLoop, wp_bind, wp_getCtx, current]
    simp only
    rw [httpContextWritten, wp_bind, wp_getCtx, setEvents, wp_bind, wp_bind, wp_deref]
    refine ⟨fun slot found => ?_, fun none => midst.pfd none⟩
    simp only [getPollFd, setPollFd, wp_bind, wp_data, wp_pure, wp_modify, wp_note, wp_setCtx]
    refine wp_spliceInit_of_found (w := ⟨_, w.rings⟩) (by simp) midst.list pool fun R items _ => ?_
    apply done
    · rw [items, update_of_ne (by simp [Writer.queue]), Writer.queue, update_self]
    · rw [items, update_self, pool, List.nil_append]
    · exact (written_cons _ _ _).trans (List.append_nil _)
    · simp [Writer.pfd, HttpMgmt.setCtx]
    · simp [Writer.funcRun, HttpMgmt.setCtx]
  | forward f =>
    have current : (w.data.forwards f).bufWrite.curr = none := midst.curr
    rw [Writer.loop, forwardWriteLoop, wp_bind, wp_getForward, current]
    simp only
    rw [wp_bind, forwardToRead, wp_bind, wp_getForward, setEvents, wp_bind, wp_bind, wp_deref]
    refine ⟨fun slot found => ?_, fun none => midst.pfd none⟩
    simp only [getPollFd, setPollFd, wp_bind, wp_data, wp_pure, wp_modify, wp_note, wp_getForward, wp_setForward]
    apply done
    · exact midst.list
    · rfl
    · exact (written_cons _ _ _).trans (List.append_nil _)
    · simp [Writer.pfd, HttpMgmt.setForward, HttpMgmt.note]
    · simp [Writer.funcRun, HttpMgmt.setForward]

/-- One round of the loop. -/
theorem wp_loop_cons (midst : Midst W (b :: rest) w)
    (legal : Legal (left (w.data.bufs b)).length (w.data.replies.headD (.fail .again)))
    (goes : Takes (left (w.data.bufs b)).length (w.data.replies.headD (.fail .again)) → ∀ v,
      v.data.replies = w.data.replies.tail → Midst W rest v → Wrote W [b] rest (left (w.data.bufs b)) w v →
      (∀ b' ∈ rest, v.data.bufs b' = w.data.bufs b') →
      Wp (W.loop count) (fun status v' => ∃ done later sent, Resumed W rest done later sent status v v') (fun _ => False) v) :
    Wp (W.loop (count + 1)) (fun status v => ∃ done later sent, Resumed W (b :: rest) done later sent status w v)
      (fun _ => False) w := by
  obtain ⟨start, len, room⟩ := midst.inside b List.mem_cons_self
  have nothing (e : Errno) : Accepted W [] w ⟨{ w.data with replies := w.data.replies.tail, errno := e }, w.rings⟩ := by
    refine ⟨rfl, rfl, (List.append_nil _).symm, ?_, ?_, ?_⟩ <;> cases W <;> rfl
  -- What follows when some of the bytes were taken is the same for both.
  have follows {n : Nat} {u : DevState} {status : Option CallerStatus} {v : DevState}
      (takes : n = (left (w.data.bufs b)).length → Takes (left (w.data.bufs b)).length (w.data.replies.headD (.fail .again)))
      (fits : n ≤ (left (w.data.bufs b)).length) (replies : u.data.replies = w.data.replies.tail)
      (result : v.data.replies = u.data.replies ∧
        if (n : Int) < (w.data.bufs b).len then
          status = some .pending ∧ Suspended W (b :: rest) v ∧
            Wrote W [] (b :: rest) ((left (w.data.bufs b)).take n) w v
        else status = none ∧ Midst W rest v ∧ Wrote W [b] rest (left (w.data.bufs b)) w v ∧
          ∀ b' ∈ rest, v.data.bufs b' = w.data.bufs b') :
      (status = some .pending ∧ ∃ done later sent, Resumed W (b :: rest) done later sent .pending w v) ∨
        status = none ∧ Wp (W.loop count)
          (fun status v => ∃ done later sent, Resumed W (b :: rest) done later sent status w v) (fun _ => False) v := by
    rw [left_length] at fits takes
    obtain ⟨same, result⟩ := result
    split at result
    next more =>
      obtain ⟨pending, suspended, wrote⟩ := result
      exact .inl ⟨pending, [], _, _, resumed_of_suspended suspended wrote⟩
    next whole =>
      obtain ⟨none, midst', wrote, others⟩ := result
      have all : n = (w.data.bufs b).len.toNat := by omega
      refine .inr ⟨none, wp_post (goes ?_ v (same.trans replies) midst' wrote others) ?_⟩
      · rw [left_length]
        exact takes all
      · rintro status v' ⟨done, later, sent, resumed⟩
        exact ⟨_, later, _, resumed.after wrote others⟩
  cases W with
  | http c =>
    have current : (w.data.ctxs c).bufWrite.curr = some b := midst.curr
    rw [Writer.loop, writeLoop, wp_bind, wp_getCtx, current]
    simp only
    rw [wp_bind, wp_getBuf, wp_bind, wp_bytesAt]
    refine ⟨fun _ => ?_, fun outside => outside ⟨start, len, room⟩⟩
    rw [wp_bind]
    apply wp_sysWrite_legal (W := .http c) legal
    · intro e retry
      rw [wp_ite, if_pos (by decide), wp_bind, wp_data, wp_ite, if_pos retry]
      exact ⟨[], _, [], resumed_of_nothing midst (nothing e)⟩
    · intro n u positive fits accepted replies takes
      have small : (n : Int) ≤ (w.data.bufs b).len := by
        rw [left_length] at fits
        omega
      rw [wp_ite, if_neg (by omega), wp_bind]
      apply wp_post (wp_wrote midst accepted small)
      intro status v result
      obtain ⟨rfl, resumed⟩ | ⟨rfl, rest⟩ := follows takes fits replies result
      · exact resumed
      · exact rest
  | forward f =>
    have current : (w.data.forwards f).bufWrite.curr = some b := midst.curr
    rw [Writer.loop, forwardWriteLoop, wp_bind, wp_getForward, current]
    simp only
    rw [wp_bind, wp_getBuf, wp_bind, wp_bytesAt]
    refine ⟨fun _ => ?_, fun outside => outside ⟨start, len, room⟩⟩
    rw [wp_bind]
    apply wp_sysWrite_legal (W := .forward f) legal
    · intro e retry
      rw [wp_bind, wp_data, wp_ite, if_pos (by decide), wp_ite, if_pos retry]
      exact ⟨[], _, [], resumed_of_nothing midst (nothing e)⟩
    · intro n u positive fits accepted replies takes
      have small : (n : Int) ≤ (w.data.bufs b).len := by
        rw [left_length] at fits
        omega
      rw [wp_bind, wp_data, wp_ite, if_neg (by omega), wp_ite, if_neg (by omega), wp_bind]
      apply wp_post (wp_wrote midst accepted small)
      intro status v result
      obtain ⟨rfl, resumed⟩ | ⟨rfl, rest⟩ := follows takes fits replies result
      · exact resumed
      · exact rest

theorem wp_loop (midst : Midst W l w) (enough : l.length < count) (fair : Fair (sizes w.data l) w.data.replies) :
    Wp (W.loop count) (fun status v => ∃ done later sent, Resumed W l done later sent status w v) (fun _ => False) w := by
  induction l generalizing w count with
  | nil =>
    obtain ⟨count, rfl⟩ := Nat.exists_eq_succ_of_ne_zero (by omega : count ≠ 0)
    exact wp_post (wp_loop_nil midst) fun status v resumed => ⟨[], [], [], resumed⟩
  | cons b rest ih =>
    obtain ⟨count, rfl⟩ := Nat.exists_eq_succ_of_ne_zero (by omega : count ≠ 0)
    obtain ⟨legal, more⟩ := fair
    apply wp_loop_cons midst legal
    intro takes v replies midst' wrote same
    apply ih midst' (Nat.lt_of_succ_lt_succ enough)
    have sizes' : sizes v.data rest = sizes w.data rest := by
      apply List.map_congr_left
      intro b' member
      rw [same b' member]
    rw [sizes', replies]
    exact more takes

end

/-! The coroutine. -/

/-- A writer that is about to begin. -/
structure Ready (W : Writer) (l : List BufId) (w : DevState) : Prop where
  list : w.rings.items W.queue = some l
  pool : ∃ free, w.rings.items .caches = some free
  inside : ∀ b ∈ l, Inside (w.data.bufs b)
  pfd : W.pfd w.data ≠ none
  funcRun : W.funcRun w.data = .write
  line : W.line w.data = .start
  fresh : ∀ f, W = .forward f → W.curr w.data = none

/-- A writer that has something to write when it is called. -/
inductive Going (W : Writer) (l : List BufId) (w : DevState) : Prop where
  | ready (ready : Ready W l w)
  | suspended (suspended : Suspended W l w)

/-- The sizes that a call of the coroutine is going to offer to the socket, as long as it takes them
whole. A coroutine to which the socket was not ready comes back behind its call of `write`, and
offers nothing where bytes of the first buffer are left. -/
def offered (W : Writer) (d : HttpMgmt) : List BufId → List Nat
  | [] => []
  | b :: rest =>
    if W.line d = .again then
      if (left (d.bufs b)).length = 0 then sizes d rest else []
    else sizes d (b :: rest)

/-- An HTTP context that has nothing to write ends. -/
structure Vain (W : Writer) (l : List BufId) (status : CallerStatus) (w v : DevState) : Prop where
  http : ∃ c, W = .http c
  nil : l = []
  wrote : Wrote W [] [] [] w v
  status : status = .finish

section
variable {W : Writer} {b : BufId} {l rest : List BufId} {w : DevState}

theorem Going.list (going : Going W l w) : w.rings.items W.queue = some l := by
  cases going with
  | ready ready => exact ready.list
  | suspended suspended => exact suspended.list

/-- Two states in which a writer and its queue are the same. -/
structure Same (W : Writer) (w u : DevState) : Prop where
  rings : u.rings = w.rings
  bufs : u.data.bufs = w.data.bufs
  acts : u.data.acts = w.data.acts
  replies : u.data.replies = w.data.replies
  pfd : W.pfd u.data = W.pfd w.data
  funcRun : W.funcRun u.data = W.funcRun w.data

theorem Resumed.of_same {done later : List BufId} {sent : List Byte} {status : CallerStatus} {u v : DevState}
    (resumed : Resumed W l done later sent status u v) (same : Same W w u) :
    Resumed W l done later sent status w v := by
  obtain ⟨split, ⟨list, freed, written, behind, inside, suffix, unfinished, pfd⟩, waits, ends⟩ := resumed
  rw [same.rings] at freed
  rw [same.acts] at written
  rw [pending_congr (d := w.data) fun b _ => congrFun same.bufs b, pending_congr (d := w.data) fun b _ => congrFun same.bufs b] at behind
  rw [same.bufs] at suffix unfinished
  exact ⟨split, ⟨list, freed, written, behind, inside, suffix, unfinished, pfd.trans same.pfd⟩, waits, ends⟩

theorem Ready.midst {u : DevState} (ready : Ready W l w) (same : Same W w u) :
    Midst W l { u with data := W.setCurr u.data l.head? } := by
  constructor
  case list => exact (congrArg (Rings.items · W.queue) same.rings).trans ready.list
  case curr => simp
  case pool =>
    rw [same.rings]
    exact ready.pool
  case inside =>
    rw [Writer.setCurr_bufs, same.bufs]
    exact ready.inside
  case pfd =>
    rw [Writer.setCurr_pfd, same.pfd]
    exact ready.pfd
  case funcRun => rw [Writer.setCurr_funcRun, same.funcRun, ready.funcRun]

theorem Midst.of_same {u : DevState} (midst : Midst W l w) (same : Same W w u) (curr : W.curr u.data = W.curr w.data) :
    Midst W l u := by
  constructor
  case list => rw [same.rings, midst.list]
  case curr => rw [curr, midst.curr]
  case pool =>
    rw [same.rings]
    exact midst.pool
  case inside =>
    rw [same.bufs]
    exact midst.inside
  case pfd =>
    rw [same.pfd]
    exact midst.pfd
  case funcRun => rw [same.funcRun, midst.funcRun]

theorem same_setCurr (W : Writer) (u : DevState) (curr : Option BufId) :
    Same W u { u with data := W.setCurr u.data curr } := by
  constructor <;> simp

/-- A forward whose coroutine is called is not idle. -/
def busy (f : FwdId) (w : DevState) : DevState :=
  { w with data := w.data.setForward f { w.data.forwards f with idle := false } }

theorem same_busy (f : FwdId) (w : DevState) : Same (.forward f) w (busy f w) := by
  unfold busy
  constructor
  case pfd => simp [Writer.pfd, HttpMgmt.setForward]
  case funcRun => simp [Writer.funcRun, HttpMgmt.setForward]
  all_goals rfl

theorem Same.trans {u v : DevState} (first : Same W w u) (second : Same W u v) : Same W w v where
  rings := second.rings.trans first.rings
  bufs := second.bufs.trans first.bufs
  acts := second.acts.trans first.acts
  replies := second.replies.trans first.replies
  pfd := second.pfd.trans first.pfd
  funcRun := second.funcRun.trans first.funcRun

/-- The coroutine comes back behind a call of `write` that took nothing. -/
theorem wp_again (midst : Midst W (b :: rest) w) (again : W.line w.data = .again)
    (fair : Fair (offered W w.data (b :: rest)) w.data.replies) :
    Wp (W.wrote b 0) (fun status v =>
      (status = some .pending ∧ ∃ done later sent, Resumed W (b :: rest) done later sent .pending w v) ∨
        status = none ∧ Wp (W.loop (httpBufCaches + 1))
          (fun status v => ∃ done later sent, Resumed W (b :: rest) done later sent status w v) (fun _ => False) v)
      (fun _ => False) w := by
  have inside := midst.inside b List.mem_cons_self
  apply wp_post (wp_wrote (n := 0) midst accepted_nothing inside.len)
  rintro status v ⟨replies, result⟩
  split at result
  next more =>
    obtain ⟨pending, suspended, wrote⟩ := result
    exact .inl ⟨pending, [], _, _, resumed_of_suspended suspended wrote⟩
  next whole =>
    obtain ⟨none, midst', wrote, others⟩ := result
    have all : (left (w.data.bufs b)).length = 0 := by
      rw [left_length]
      have positive := inside.len
      omega
    have sizes' : sizes v.data rest = sizes w.data rest := by
      apply List.map_congr_left
      intro b' member
      rw [others b' member]
    rw [offered, if_pos again, if_pos all, ← sizes', ← replies] at fair
    refine .inr ⟨none, wp_post (wp_loop midst' (length_lt_caches midst'.list) fair) ?_⟩
    rintro status v' ⟨done, later, sent, resumed⟩
    exact ⟨_, later, _, resumed.after wrote others⟩

theorem fair_of_ready (ready : W.line w.data ≠ .again) (fair : Fair (offered W w.data l) w.data.replies) :
    Fair (sizes w.data l) w.data.replies := by
  cases l with
  | nil => trivial
  | cons b rest => rwa [offered, if_neg ready] at fair

theorem wp_loop_of_same {u : DevState} (same : Same W w u) (midst : Midst W l u)
    (fair : Fair (sizes w.data l) w.data.replies) :
    Wp (W.loop (httpBufCaches + 1)) (fun status v => Vain W l status w v ∨
      ∃ done later sent, Resumed W l done later sent status w v) (fun _ => False) u := by
  have sizes' : sizes u.data l = sizes w.data l := by rw [sizes, same.bufs, sizes]
  rw [← sizes', ← same.replies] at fair
  apply wp_post (wp_loop midst (length_lt_caches midst.list) fair)
  rintro status v ⟨done, later, sent, resumed⟩
  exact .inr ⟨done, later, sent, resumed.of_same same⟩

theorem wp_httpContextWrite {c : CtxId} (going : Going (.http c) l w)
    (fair : Fair (offered (.http c) w.data l) w.data.replies) :
    Wp (httpContextWrite c) (fun status v => Vain (.http c) l status w v ∨
      ∃ done later sent, Resumed (.http c) l done later sent status w v) (fun _ => False) w := by
  rw [httpContextWrite, wp_bind, wp_getCtx]
  cases going with
  | ready ready =>
    have line : (w.data.ctxs c).line = .start := ready.line
    have fair' := fair_of_ready (by rw [ready.line]; decide) fair
    rw [line]
    simp only
    rw [wp_bind, nextBufInfo, wp_head]
    refine ⟨fun l' found => ?_, fun none => by cases ready.list.symm.trans none⟩
    cases ready.list.symm.trans found
    have same : Same (.http c) w ⟨Writer.setCurr (.http c) w.data l.head?, w.rings⟩ := same_setCurr _ w _
    have midst := ready.midst ⟨rfl, rfl, rfl, rfl, rfl, rfl⟩
    have curr : ((Writer.setCurr (.http c) w.data l.head?).ctxs c).bufWrite.curr = l.head? := midst.curr
    rw [wp_bind, setWriteCurr, wp_bind, wp_getCtx, wp_setCtx]
    change Wp _ _ _ ⟨Writer.setCurr (.http c) w.data l.head?, w.rings⟩
    rw [wp_bind, wp_getCtx, curr]
    cases l with
    | nil =>
      simp only [List.head?_nil]
      rw [wp_bind, wp_getCtx, wp_bind, wp_setCtx]
      refine .inl ⟨⟨c, rfl⟩, rfl, ?_, rfl⟩
      refine ⟨ready.list, fun free found => found, (List.append_nil _).symm, ⟨[], rfl, rfl⟩, by simp, by simp, by simp, ?_⟩
      simp [Writer.pfd, Writer.setCurr, HttpMgmt.setCtx]
    | cons b rest =>
      simp only [List.head?_cons]
      exact wp_loop_of_same same midst fair'
  | suspended suspended =>
    rcases suspended.line with line | line
    · have line' : (w.data.ctxs c).line = .partly := line
      rw [line']
      simp only
      exact wp_loop_of_same ⟨rfl, rfl, rfl, rfl, rfl, rfl⟩ suspended.toMidst (fair_of_ready (by rw [line]; decide) fair)
    · obtain ⟨b, rest, rfl⟩ := List.exists_cons_of_ne_nil suspended.some_left
      have line' : (w.data.ctxs c).line = .again := line
      have curr : (w.data.ctxs c).bufWrite.curr = some b := suspended.curr
      rw [line']
      simp only
      rw [curr, wp_bind, wp_deref]
      refine ⟨fun b' found => ?_, fun none => by cases none⟩
      cases found
      rw [wp_bind]
      apply wp_post (wp_again suspended.toMidst line fair)
      rintro status v (⟨rfl, resumed⟩ | ⟨rfl, rest⟩)
      · exact .inr resumed
      · exact wp_post rest fun status v => .inr

theorem wp_tcpForwardWrite {f : FwdId} (going : Going (.forward f) l w)
    (fair : Fair (offered (.forward f) w.data l) w.data.replies) :
    Wp (tcpForwardWrite f) (fun status v => Vain (.forward f) l status w v ∨
      ∃ done later sent, Resumed (.forward f) l done later sent status w v) (fun _ => False) w := by
  have same := same_busy f w
  rw [tcpForwardWrite, wp_bind, wp_getForward, wp_bind, wp_setForward]
  change Wp _ _ _ (busy f w)
  cases going with
  | ready ready =>
    have line : (w.data.forwards f).line = .start := ready.line
    have fair' := fair_of_ready (by rw [ready.line]; decide) fair
    rw [line]
    simp only
    rw [wp_bind, wp_assert]
    refine ⟨fun _ => ?_, fun full => full (ready.fresh f rfl)⟩
    rw [wp_bind, nextBufInfo, wp_head]
    refine ⟨fun l' found => ?_, fun none => by cases ready.list.symm.trans none⟩
    cases ready.list.symm.trans found
    rw [wp_bind, setForwardCurr, wp_bind, wp_getForward, wp_setForward]
    exact wp_loop_of_same (same.trans (same_setCurr _ _ _)) (ready.midst same) fair'
  | suspended suspended =>
    have midst := suspended.toMidst.of_same same (by simp [busy, Writer.curr, HttpMgmt.setForward])
    rcases suspended.line with line | line
    · have line' : (w.data.forwards f).line = .partly := line
      rw [line']
      simp only
      exact wp_loop_of_same same midst (fair_of_ready (by rw [line]; decide) fair)
    · obtain ⟨b, rest, rfl⟩ := List.exists_cons_of_ne_nil suspended.some_left
      have line' : (w.data.forwards f).line = .again := line
      have curr : (w.data.forwards f).bufWrite.curr = some b := suspended.curr
      rw [line']
      simp only
      rw [curr, wp_bind, wp_deref]
      refine ⟨fun b' found => ?_, fun none => by cases none⟩
      cases found
      rw [wp_bind]
      have again : Writer.line (.forward f) (busy f w).data = .again := by
        rw [← line]
        simp [busy, Writer.line, HttpMgmt.setForward]
      apply wp_post (wp_again midst again ?_)
      · rintro status v (⟨rfl, done, later, sent, resumed⟩ | ⟨rfl, rest⟩)
        · exact .inr ⟨done, later, sent, resumed.of_same same⟩
        · apply wp_post rest
          rintro status v ⟨done, later, sent, resumed⟩
          exact .inr ⟨done, later, sent, resumed.of_same same⟩
      · rw [offered, if_pos again]
        rw [offered, if_pos line] at fair
        exact fair

theorem wp_code (going : Going W l w) (fair : Fair (offered W w.data l) w.data.replies) :
    Wp W.code (fun status v => Vain W l status w v ∨ ∃ done later sent, Resumed W l done later sent status w v)
      (fun _ => False) w := by
  cases W with
  | http c => exact wp_httpContextWrite going fair
  | forward f => exact wp_tcpForwardWrite going fair

end

/-! Runs. -/

/-- Between two calls others go on with their work, and buffers may join the end of the queue. -/
structure Meanwhile (W : Writer) (l more : List BufId) (w v : DevState) : Prop where
  before : w.rings.items W.queue = some l
  list : v.rings.items W.queue = some (l ++ more)
  pool : ∃ free, v.rings.items .caches = some free
  kept : ∀ b ∈ l, v.data.bufs b = w.data.bufs b
  inside : ∀ b ∈ more, Inside (v.data.bufs b)
  written : written W.owner v.data.acts = written W.owner w.data.acts
  line : W.line v.data = W.line w.data
  curr : W.curr v.data = W.curr w.data
  pfd : W.pfd v.data = W.pfd w.data
  funcRun : W.funcRun v.data = W.funcRun w.data

/-- Runs of a writer that begins in `w`: the stream that was queued for it so far, what it returned
last, and where it is now. -/
inductive Runs (W : Writer) (w : DevState) : List Byte → CallerStatus → DevState → Prop
  | start {l : List BufId} : Ready W l w → Runs W w (pending w.data l) .pending w
  | call {stream : List Byte} {l : List BufId} {call : Call} {status : CallerStatus} {u v : DevState} :
      Runs W w stream .pending u → W.funcRun u.data = .write → u.rings.items W.queue = some l →
      Fair (offered W u.data l) call.replies → W.code.run (atCall u call) = .ok (status, v) → Runs W w stream status v
  | meanwhile {stream : List Byte} {l more : List BufId} {u v : DevState} :
      Runs W w stream .pending u → W.funcRun u.data = .write → Meanwhile W l more u v →
      Runs W w (stream ++ pending v.data more) .pending v

/-- What a writer has written so far, and what it does when it is called again. -/
structure Carried (W : Writer) (stream : List Byte) (status : CallerStatus) (w v : DevState) : Prop where
  /-- The socket has taken a prefix of the stream, and the rest of it is queued. -/
  sent : ∃ later sent, v.rings.items W.queue = some later ∧
    written W.owner v.data.acts = written W.owner w.data.acts ++ sent ∧ sent ++ pending v.data later = stream
  /-- A writer that has ended has written all of it. -/
  whole : status = .finish ∨ W.funcRun v.data = .read →
    written W.owner v.data.acts = written W.owner w.data.acts ++ stream
  /-- The next call goes on behind the last byte that was taken, and frees what is written. -/
  next : status = .pending → W.funcRun v.data = .write → ∀ l call, v.rings.items W.queue = some l →
    Fair (offered W v.data l) call.replies → ∃ status' v', W.code.run (atCall v call) = .ok (status', v') ∧
      (Vain W l status' (atCall v call) v' ∨ ∃ done later sent, Resumed W l done later sent status' (atCall v call) v')

section
variable {W : Writer} {l more : List BufId} {stream : List Byte} {status : CallerStatus} {w u v : DevState}

theorem Going.atCall (going : Going W l w) (call : Call) : Going W l (atCall w call) := by
  cases going with
  | ready ready =>
    obtain ⟨list, pool, inside, pfd, funcRun, line, fresh⟩ := ready
    cases W <;> exact .ready ⟨list, pool, inside, pfd, funcRun, line, fresh⟩
  | suspended suspended =>
    obtain ⟨⟨list, curr, pool, inside, pfd, funcRun⟩, line, some⟩ := suspended
    cases W <;> exact .suspended ⟨⟨list, curr, pool, inside, pfd, funcRun⟩, line, some⟩

theorem Going.meanwhile (going : Going W l w) (meanwhile : Meanwhile W l more w v) : Going W (l ++ more) v := by
  obtain ⟨before, list, pool, kept, joined, written, line, curr, pfd, funcRun⟩ := meanwhile
  have all (inside : ∀ b ∈ l, Inside (w.data.bufs b)) : ∀ b ∈ l ++ more, Inside (v.data.bufs b) := by
    intro b member
    rcases List.mem_append.mp member with member | member
    · rw [kept b member]
      exact inside b member
    · exact joined b member
  cases going with
  | ready ready =>
    apply Going.ready
    constructor
    case list => exact list
    case pool => exact pool
    case inside => exact all ready.inside
    case pfd => exact pfd ▸ ready.pfd
    case funcRun => exact funcRun.trans ready.funcRun
    case line => exact line.trans ready.line
    case fresh => exact fun f same => curr.trans (ready.fresh f same)
  | suspended suspended =>
    apply Going.suspended
    refine ⟨⟨list, ?_, pool, all suspended.inside, pfd ▸ suspended.pfd, funcRun.trans suspended.funcRun⟩, ?_, ?_⟩
    · rw [curr, suspended.curr]
      obtain ⟨b, rest, rfl⟩ := List.exists_cons_of_ne_nil suspended.some_left
      rfl
    · rw [line]
      exact suspended.line
    · simp [suspended.some_left]

/-- So it is when data from the server arrives for a forward that is busy. -/
theorem wp_processTcpForwardresp_meanwhile {f : FwdId} {free : List BufId} (own : Connecting.target w = some f)
    (busy : (w.data.forwards f).idle = false) (list : w.rings.items (.fwdWrite f) = some l)
    (arrived : w.rings.items .prepare = some more) (pool : w.rings.items .caches = some free)
    (inside : ∀ b ∈ more, Inside (w.data.bufs b)) :
    Wp processTcpForwardresp (fun rc v => rc = 0 ∧ Meanwhile (.forward f) l more w v) (fun _ => True) w := by
  rw [processTcpForwardresp, wp_bind, wp_data, wp_bind, findForward, wp_bind, wp_data, wp_pure]
  rw [show w.data.listForward.find? _ = some f from own]
  simp only
  rw [wp_bind]
  apply wp_spliceTailInit_of_found (by simp) arrived list
  intro R items _
  have list' : R.items (.fwdWrite f) = some (l ++ more) := by rw [items, update_self]
  have empty : R.items .prepare = some [] := by rw [items, update_of_ne (by simp), update_self]
  have pool' : R.items .caches = some free := by
    rw [items, update_of_ne (by simp), update_of_ne (by simp), pool]
  rw [wp_bind, wp_data, wp_bind, wp_assert]
  refine ⟨fun curr => ?_, fun _ => trivial⟩
  rw [wp_bind]
  apply wp_releasePrepare_of_none (w := ⟨w.data, R⟩) curr empty pool'
  intro S items' _
  rw [wp_bind, wp_getForward, wp_bind, wp_when]
  refine ⟨fun idle => (by cases busy.symm.trans idle), fun _ => ⟨rfl, ?_⟩⟩
  constructor
  case before => exact list
  case list =>
    change S.items (.fwdWrite f) = _
    rw [items', update_of_ne (by simp), update_of_ne (by simp), list']
  case pool => exact ⟨free, by rw [items', update_self, List.nil_append]⟩
  case kept => exact fun _ _ => rfl
  case inside => exact inside
  all_goals rfl

/-- Where a writer is in its run. -/
structure Place (W : Writer) (stream : List Byte) (status : CallerStatus) (w v : DevState) (later : List BufId)
    (sent : List Byte) : Prop where
  list : v.rings.items W.queue = some later
  written : written W.owner v.data.acts = written W.owner w.data.acts ++ sent
  total : sent ++ pending v.data later = stream
  going : status = .pending → W.funcRun v.data = .write → Going W later v
  ended : status = .finish ∨ W.funcRun v.data = .read → later = []

theorem offered_atCall (call : Call) : offered W (atCall w call).data l = offered W w.data l := by
  cases W <;> cases l <;> rfl

theorem place_of_runs (runs : Runs W w stream status v) : ∃ later sent, Place W stream status w v later sent := by
  induction runs with
  | start ready =>
    refine ⟨_, [], ready.list, (List.append_nil _).symm, rfl, fun _ _ => .ready ready, ?_⟩
    rintro (finish | read)
    · cases finish
    · cases ready.funcRun.symm.trans read
  | @call stream l call status u v runs write list fair ran ih =>
    obtain ⟨later, sent, place⟩ := ih
    cases place.list.symm.trans list
    have going := (place.going rfl write).atCall call
    have result := wp_of_run ran (wp_code going (by rwa [offered_atCall]))
    rcases result with vain | ⟨done, later', sent', resumed⟩
    · obtain ⟨_, rfl, wrote, rfl⟩ := vain
      have written' : written W.owner v.data.acts = written W.owner u.data.acts ++ [] := wrote.written
      refine ⟨[], sent, wrote.list, ?_, place.total, fun pending => (by cases pending), fun _ => rfl⟩
      rw [written', List.append_nil, place.written]
    · obtain ⟨rfl, wrote, waits, ends⟩ := resumed
      have written' : written W.owner v.data.acts = written W.owner u.data.acts ++ sent' := wrote.written
      have total : sent' ++ pending v.data later' = pending u.data (done ++ later') := wrote.total
      refine ⟨later', sent ++ sent', wrote.list, ?_, ?_, fun _ write => ?_, fun ended => ?_⟩
      · rw [written', place.written, List.append_assoc]
      · rw [List.append_assoc, total, place.total]
      · by_cases none : later' = []
        · cases write.symm.trans (ends none).2
        · exact .suspended (waits none).2
      · by_contra some
        obtain ⟨pending, suspended⟩ := waits some
        rcases ended with finish | read
        · cases finish.symm.trans pending
        · cases read.symm.trans suspended.funcRun
  | meanwhile runs write meanwhile ih =>
    obtain ⟨later, sent, place⟩ := ih
    cases place.list.symm.trans meanwhile.before
    have kept := pending_congr meanwhile.kept
    refine ⟨_, sent, meanwhile.list, meanwhile.written.trans place.written, ?_, ?_, ?_⟩
    · rw [← place.total, List.append_assoc, ← kept, pending, pending, pending, List.flatMap_append]
    · exact fun _ _ => (place.going rfl write).meanwhile meanwhile
    · rintro (finish | read)
      · cases finish
      · cases (meanwhile.funcRun.trans write).symm.trans read

/-- Partial writes lose nothing and write nothing twice. -/
theorem carried_of_runs (runs : Runs W w stream status v) : Carried W stream status w v := by
  obtain ⟨later, sent, place⟩ := place_of_runs runs
  constructor
  case sent => exact ⟨later, sent, place.list, place.written, place.total⟩
  case whole =>
    intro ended
    have total := place.total
    rw [place.ended ended, pending, List.flatMap_nil, List.append_nil] at total
    rw [place.written, total]
  case next =>
    intro pending write l call list fair
    cases place.list.symm.trans list
    have going := (place.going pending write).atCall call
    obtain ⟨status', v', ran, result⟩ := wp_total.mp (wp_code going (by rwa [offered_atCall]))
    exact ⟨status', v', ran, result⟩

end

/-! A forward with two frames to write, whose socket takes two bytes, then none, then the rest. -/

def twoFrames : List Occasion := Connecting.connectsThenWrites.take 6 ++ [⟨.receive Connecting.dataFrame, 3, []⟩]

/-- A call after which the forward is called again. -/
def callOnce (w : DevState) (call : Call) : Option DevState :=
  match (tcpForwardWrite 0).run (atCall w call) with
  | .ok (.pending, v) => some v
  | _ => none

/-- The forward is to write, and offers buffers of these sizes. -/
def facing (sizes : List Nat) (w : DevState) : Bool :=
  decide ((w.data.forwards 0).funcRun = .write) &&
    (w.rings.items (.fwdWrite 0)).any fun l => decide (offered (.forward 0) w.data l = sizes)

def aboutToBegin (w : DevState) : Bool :=
  decide ((w.rings.items .caches).isSome ∧ (w.data.forwards 0).pfd ≠ none ∧ (w.data.forwards 0).funcRun = .write ∧
    (w.data.forwards 0).line = .start ∧ (w.data.forwards 0).bufWrite.curr = none) &&
    (w.rings.items (.fwdWrite 0)).any fun l => decide (l.length = 2 ∧ pending w.data l = text "hellohello" ∧
      ∀ b ∈ l, 0 ≤ (w.data.bufs b).start ∧ 0 ≤ (w.data.bufs b).len ∧ (w.data.bufs b).start + (w.data.bufs b).len ≤ bufRoom)

theorem ready_of_aboutToBegin {w : DevState} (passes : aboutToBegin w = true) :
    ∃ l, Ready (.forward 0) l w ∧ l.length = 2 ∧ pending w.data l = text "hellohello" := by
  rw [aboutToBegin, Bool.and_eq_true, decide_eq_true_eq, Option.any_eq_true] at passes
  obtain ⟨⟨pool, pfd, write, line, curr⟩, l, list, two⟩ := passes
  obtain ⟨two, bytes, inside⟩ := of_decide_eq_true two
  refine ⟨l, ⟨list, Option.isSome_iff_exists.mp pool, fun b member => ?_, pfd, write, line, fun _ _ => curr⟩, two, bytes⟩
  obtain ⟨start, len, room⟩ := inside b member
  exact ⟨start, len, room⟩

theorem Runs.again {w u v : DevState} {stream : List Byte} {sizes : List Nat} {call : Call}
    (runs : Runs (.forward 0) w stream .pending u) (faces : facing sizes u = true) (fair : Fair sizes call.replies)
    (called : callOnce u call = some v) : Runs (.forward 0) w stream .pending v := by
  rw [facing, Bool.and_eq_true, decide_eq_true_eq, Option.any_eq_true] at faces
  obtain ⟨write, l, list, offers⟩ := faces
  have ran : (Writer.forward 0).code.run (atCall u call) = .ok (.pending, v) := by
    rw [callOnce] at called
    split at called
    next ran =>
      cases called
      exact ran
    next => cases called
  exact .call runs write list (of_decide_eq_true offers ▸ fair) ran

/-- The calls of the forward: the socket takes two bytes, then none, is not written to by the
call after that, and takes the rest. -/
def fourCalls (w : DevState) : Option (DevState × DevState × DevState × DevState) :=
  (callOnce w ⟨4, [.value 2]⟩).bind fun first => (callOnce first ⟨5, [.fail .again]⟩).bind fun second =>
    (callOnce second ⟨6, []⟩).bind fun third => (callOnce third ⟨7, [.value 3, .value 5]⟩).map fun last =>
      (first, second, third, last)

def allFace (w : DevState) (after : DevState × DevState × DevState × DevState) : Bool :=
  aboutToBegin w && facing [5, 5] w && facing [3, 5] after.1 && facing [] after.2.1 && facing [3, 5] after.2.2.1 &&
    decide ((after.2.2.2.data.forwards 0).funcRun = .read)

theorem fourCalls_face :
    ((Library.Run.run step Reassembly.device twoFrames).bind fun w => (fourCalls w).map (allFace w)) = some true := by
  decide +kernel

theorem carried_of_runs_part : ∃ (w v : DevState) (l : List BufId), l.length = 2 ∧ pending w.data l = text "hellohello" ∧
    written (.forward 0) v.data.acts = written (.forward 0) w.data.acts ++ text "hellohello" := by
  obtain ⟨w, _, called⟩ := Option.bind_eq_some_iff.mp fourCalls_face
  obtain ⟨⟨first, second, third, last⟩, called, face⟩ := Option.map_eq_some_iff.mp called
  simp only [allFace, Bool.and_eq_true, decide_eq_true_eq] at face
  obtain ⟨⟨⟨⟨⟨begins, face⟩, face'⟩, idle⟩, face''⟩, read⟩ := face
  obtain ⟨_, one, called⟩ := Option.bind_eq_some_iff.mp called
  obtain ⟨_, two, called⟩ := Option.bind_eq_some_iff.mp called
  obtain ⟨_, three, called⟩ := Option.bind_eq_some_iff.mp called
  obtain ⟨_, four, same⟩ := Option.map_eq_some_iff.mp called
  cases same
  obtain ⟨l, ready, length, bytes⟩ := ready_of_aboutToBegin begins
  have some_ : Fair [5, 5] [.value 2] := ⟨⟨by decide, by decide⟩, fun takes => absurd (show 5 ≤ 2 from takes) (by decide)⟩
  have vain : Fair [3, 5] [.fail .again] := ⟨.inl rfl, False.elim⟩
  have rest : Fair [3, 5] [.value 3, .value 5] := ⟨⟨by decide, by decide⟩, fun _ => ⟨⟨by decide, by decide⟩, fun _ => trivial⟩⟩
  have runs : Runs (.forward 0) w (pending w.data l) .pending last :=
    ((((Runs.start ready).again face some_ one).again face' vain two).again idle trivial three).again face'' rest four
  exact ⟨w, last, l, length, bytes, bytes ▸ (carried_of_runs runs).whole (.inr read)⟩

end WebTunnel.Device.Resuming
