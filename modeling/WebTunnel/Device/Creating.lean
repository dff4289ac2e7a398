import WebTunnel.Device.Calling

/-! The creation of a context for a request: what of the device it takes when it succeeds, and
what it should leave as it was when it does not. -/

namespace WebTunnel.Device.Creating
open Library.Bytes Library.Lists Library.Run Library.Routines Library.Routines.Routine Function Device.Types Buffers
open Server.Wire Parsing Http Manager Frames Footprints Keeping Answering Scheduling Scheduler Calling

section
variable {c : CtxId} {hostname : List Byte} {port timeout : Int} {w v : DevState}

/-- The first of the prepared buffers names a host, and what is read of it ends in a zero. -/
def NamesHost (hostname : List Byte) (port : Int) (w : DevState) : Prop :=
  ∃ b rest, w.rings.items .prepare = some (b :: rest) ∧ (0 : Byte) ∈ (w.data.bufs b).buf.slice 0 bufRoom ∧
    getHostFromBuf (cString ((w.data.bufs b).buf.slice 0 bufRoom)) = .found hostname port

/-- The context is taken for the request: it is initialised, in the list of deadlines and the
ready list, and owns the prepared buffers. -/
structure Taken (timeout : Int) (c : CtxId) (w v : DevState) : Prop where
  caches : w.data.ctxCaches = c :: v.data.ctxCaches
  timed : v.data.listTimeout.Perm (c :: w.data.listTimeout)
  ready : v.data.listReady = update w.data.listReady 0 (c :: w.data.listReady 0)
  status : (v.data.ctxs c).status = .ready
  connects : (v.data.ctxs c).funcRun = .connect ∧ (v.data.ctxs c).line = .start ∧ (v.data.ctxs c).state = .connect
  errcode : (v.data.ctxs c).errcode = 0
  deadline : (v.data.ctxs c).timeout = w.data.now + timeout
  seq : (v.data.ctxs c).seq = w.data.bufPrepare.seq
  host : NamesHost (v.data.ctxs c).hostname (v.data.ctxs c).port w
  buffers : v.rings.items (.writeTodo c) = w.rings.items .prepare
  handed : v.rings.items .prepare = some []

/-- No context was taken, and the prepared buffers are still to be released. -/
structure Untouched (w v : DevState) : Prop where
  caches : v.data.ctxCaches = w.data.ctxCaches
  timed : v.data.listTimeout = w.data.listTimeout
  ready : v.data.listReady = w.data.listReady
  polled : v.data.countPollfds = w.data.countPollfds ∧ v.data.pollfds = w.data.pollfds
  prepared : v.data.bufPrepare = w.data.bufPrepare ∧ v.rings.items .prepare = w.rings.items .prepare

/-- The creation of a context succeeds and has taken one, or it fails and has changed nothing. -/
def AllOrNothing (timeout : Int) (w : DevState) : Prop :=
  ∃ rc v, (httpContextCreate timeout).run w = .ok (rc, v) ∧
    ((rc = 0 ∧ ∃ c, Taken timeout c w v) ∨ (rc ≠ 0 ∧ Untouched w v))

/-- There is a free context on which nothing hangs, the request names a host, and the system
gives a socket. -/
structure Creatable (w : DevState) : Prop where
  free : ∃ c rest, w.data.ctxCaches = c :: rest ∧ (∀ l, w.rings.items (.readTodo c) = some l → l = []) ∧
    ∀ l, w.rings.items (.writeTodo c) = some l → l = []
  host : ∃ hostname port, NamesHost hostname port w
  socket : ∀ e, w.data.replies.headD (.fail .again) ≠ .fail e

theorem wp_hostInit {post : Int → DevState → Prop} {err : Fault → Prop} (names : NamesHost hostname port w)
    (next : post 0 { w with data := w.data.setCtx c { w.data.ctxs c with hostname, port } }) :
    Wp (hostInit c) post err w := by
  obtain ⟨b, rest, first, zero, found⟩ := names
  rw [hostInit, wp_bind, nextBufInfo, wp_head]
  refine ⟨fun l same => ?_, fun none => by cases first.symm.trans none⟩
  cases first.symm.trans same
  rw [List.head?_cons, deref, wp_bind, wp_pure, wp_bind, bytesAt, if_pos (by decide)]
  simp only [wp_bind, wp_getBuf, wp_pure, wp_demand]
  refine ⟨fun _ => ?_, fun zeroless => absurd zero zeroless⟩
  have found : getHostFromBuf (cString ((w.data.bufs b).buf.slice (Int.toNat 0) (bufRoom : Int).toNat)) = .found hostname port := found
  simp only [found, wp_bind, wp_getCtx, wp_setCtx, wp_pure]
  exact next

/-- Without the name of a host nothing but the failure is returned. -/
theorem wp_hostInit_absent {post : Int → DevState → Prop} (absent : ¬ ∃ hostname port, NamesHost hostname port w)
    (next : post 1 w) : Wp (hostInit c) post (fun _ => True) w := by
  rw [hostInit, wp_bind, nextBufInfo, wp_head]
  refine ⟨fun l first => ?_, fun _ => trivial⟩
  cases l with
  | nil => trivial
  | cons b rest =>
    rw [List.head?_cons, deref, wp_bind, wp_pure, wp_bind, bytesAt, if_pos (by decide)]
    simp only [wp_bind, wp_getBuf, wp_pure, wp_demand]
    refine ⟨fun zero => ?_, fun _ => trivial⟩
    split
    next => exact next
    next => trivial
    next hostname port found => exact absurd ⟨hostname, port, b, rest, first, zero, found⟩ absent

/-- What entering the lists does with a context that is in none of them. -/
structure Entered (c : CtxId) (w v : DevState) : Prop where
  caches : v.data.ctxCaches = w.data.ctxCaches
  rings : v.rings = w.rings
  timed : v.data.listTimeout.Perm (c :: w.data.listTimeout)
  ready : v.data.listReady = update w.data.listReady 0 (c :: w.data.listReady 0)
  context : ∃ pfd, v.data.ctxs c = { w.data.ctxs c with
    errcode := 0, state := .connect, funcRun := .connect, status := .ready, line := .start, pfd }

/-- The context is in none of the lists of contexts. -/
structure Apart (c : CtxId) (w : DevState) : Prop where
  running : c ∉ w.data.running
  ready : c ∉ w.data.listReady 0 ∧ c ∉ w.data.listReady 1
  free : c ∉ w.data.ctxCaches
  timed : c ∉ w.data.listTimeout

theorem wp_mgmtAddFd {fd : Int} {events : PollEvents} {post : Option Nat → DevState → Prop} {err : Fault → Prop}
    (given : 0 ≤ fd) (next : ∀ pfd lookup polls count, post pfd
      { w with data := { w.data with fdLookup := lookup, pollfds := polls, countPollfds := count } }) :
    Wp (mgmtAddFd fd events) post err w := by
  rw [mgmtAddFd, wp_bind, wp_data, wp_ite]
  split
  · exact next none w.data.fdLookup w.data.pollfds w.data.countPollfds
  · rw [wp_bind, wp_demand]
    exact ⟨fun _ => next _ _ _ _, fun negative => absurd given negative⟩

theorem wp_httpContextInit {err : Fault → Prop} (apart : Apart c w) (prio : (w.data.ctxs c).prio = 0)
    (given : 0 ≤ (w.data.ctxs c).sockfd) : Wp (httpContextInit c) (fun _ v => Entered c w v) err w := by
  rw [httpContextInit, wp_bind, wp_getCtx, wp_bind, wp_setCtx, wp_bind, insertReadyPrio, wp_bind, wp_getCtx, wp_bind,
    wp_setCtx, wp_bind, wp_data, wp_bind, wp_demand]
  refine ⟨fun _ => ?_, fun linked => absurd ⟨apart.running, apart.ready.1, apart.ready.2, apart.free⟩ linked⟩
  rw [wp_modify, wp_bind, insertTimeout, wp_bind, wp_data, wp_bind, wp_demand]
  refine ⟨fun _ => ?_, fun timed => absurd apart.timed timed⟩
  rw [wp_modify, wp_bind, wp_modify, wp_bind]
  refine wp_mgmtAddFd given fun pfd lookup polls count => ?_
  simp only [wp_bind, wp_getCtx, wp_setCtx, setLookup, wp_modify, HttpMgmt.setCtx, update_self, prio]
  constructor
  case caches => rfl
  case rings => rfl
  case timed => exact insertByTimeout_perm ..
  case ready => simp
  case context => exact ⟨pfd, by simp [prio]⟩

/-- A context without buffers takes over the request. -/
theorem wp_contextOpen {err : Fault → Prop} {sockfd : Int} {l : List BufId} (apart : Apart c w)
    (read : ∀ l, w.rings.items (.readTodo c) = some l → l = []) (write : ∀ l, w.rings.items (.writeTodo c) = some l → l = [])
    (prepared : w.rings.items .prepare = some l) (prio : (w.data.ctxs c).prio = 0) (given : 0 ≤ sockfd) :
    Wp (contextOpen c sockfd timeout) (fun _ v => ∃ u R,
      R.items (.writeTodo c) = some l ∧ R.items .prepare = some [] ∧
      u = (w.data.note (.socket (.http c) sockfd)).setCtx c
        { w.data.ctxs c with sockfd, timeout := w.data.now + timeout, seq := w.data.bufPrepare.seq } ∧
      Entered c ⟨u, R⟩ v) err w := by
  rw [contextOpen, wp_bind, wp_note, wp_bind]
  obtain ⟨R₁, done₁, items₁, -⟩ := exists_init read
  refine wp_perform_of_done done₁ ?_
  rw [wp_bind]
  have write₁ : ∀ l, R₁.items (.writeTodo c) = some l → l = [] := by
    rw [items₁, update_of_ne (by simp)]
    exact write
  obtain ⟨R₂, done₂, items₂, -⟩ := exists_init write₁
  refine wp_perform_of_done done₂ ?_
  rw [wp_bind, wp_data, wp_bind, wp_getCtx, wp_bind, wp_setCtx, wp_bind]
  have prepared₂ : R₂.items .prepare = some l := by
    rw [items₂, update_of_ne (by simp), items₁, update_of_ne (by simp), prepared]
  have write₂ : R₂.items (.writeTodo c) = some [] := by rw [items₂, update_self]
  refine wp_spliceInit_of_found (by simp) prepared₂ write₂ fun R items _ => ?_
  refine wp_post (wp_httpContextInit ⟨apart.running, apart.ready, apart.free, apart.timed⟩ ?_ ?_) fun _ v entered =>
    ⟨_, R, ?_, ?_, rfl, entered⟩
  · simp only [HttpMgmt.setCtx, update_self]
    exact prio
  · simp only [HttpMgmt.setCtx, update_self]
    exact given
  · rw [items, update_self, List.append_nil]
  · rw [items, update_of_ne (by simp), update_self]

theorem NamesHost.framed (names : NamesHost hostname port w) (bufs : v.data.bufs = w.data.bufs)
    (items : v.rings.items .prepare = w.rings.items .prepare) : NamesHost hostname port v := by
  obtain ⟨b, rest, first, zero, found⟩ := names
  exact ⟨b, rest, items.trans first, bufs ▸ zero, bufs ▸ found⟩

theorem wp_sysSocket {post : Int → DevState → Prop} {err : Fault → Prop}
    (given : ∀ e, w.data.replies.headD (.fail .again) ≠ .fail e)
    (next : ∀ n : Nat, post n { w with data := { w.data with replies := w.data.replies.tail } }) :
    Wp sysSocket post err w := by
  rw [sysSocket, wp_bind, reply, wp_bind, wp_data, wp_bind, wp_modify, wp_pure]
  cases first : w.data.replies.headD (.fail .again) with
  | fail e => exact absurd first (given e)
  | value n => exact next n
  | data bytes => exact next bytes.length

/-- Between two calls a free context is in no list but the one of the free contexts. -/
def FreeApart (w : DevState) : Prop :=
  ∀ c rest, w.data.ctxCaches = c :: rest →
    Apart c { w with data := { w.data with ctxCaches := rest } }

theorem allOrNothing_of_creatable (free : FreeApart w) (creatable : Creatable w) : AllOrNothing timeout w := by
  obtain ⟨⟨c, rest, caches, read, write⟩, ⟨hostname, port, names⟩, socket⟩ := creatable
  have apart := free c rest caches
  suffices created : Wp (httpContextCreate timeout) (fun rc v => rc = 0 ∧ Taken timeout c w v) (fun _ => False) w by
    obtain ⟨rc, v, ran, zero, taken⟩ := wp_total.mp created
    exact ⟨rc, v, ran, .inl ⟨zero, c, taken⟩⟩
  rw [httpContextCreate, wp_bind, allocContext, wp_bind, wp_data, caches]
  dsimp only
  rw [wp_bind, wp_modify, wp_pure]
  dsimp only
  rw [wp_bind, wp_setCtx, wp_bind]
  obtain ⟨R₁, done₁, items₁, -⟩ := exists_wipe read
  refine wp_perform_of_done done₁ ?_
  rw [wp_bind]
  have write₁ : ∀ l, R₁.items (.writeTodo c) = some l → l = [] := by
    rw [items₁, update_of_ne (by simp)]
    exact write
  obtain ⟨R₂, done₂, items₂, -⟩ := exists_wipe write₁
  refine wp_perform_of_done done₂ ?_
  have prepare : R₂.items .prepare = w.rings.items .prepare := by
    rw [items₂, update_of_ne (by simp), items₁, update_of_ne (by simp)]
  rw [wp_bind]
  refine wp_hostInit (names.framed rfl prepare) ?_
  rw [wp_ite, if_neg (by simp), wp_bind]
  refine wp_sysSocket socket fun fd => ?_
  rw [wp_ite, if_neg (by omega), wp_bind]
  obtain ⟨b, more, first, zero, found⟩ := names
  have noRead : R₂.items (.readTodo c) = none := by rw [items₂, update_of_ne (by simp), items₁, update_self]
  have noWrite : R₂.items (.writeTodo c) = none := by rw [items₂, update_self]
  refine wp_post (wp_contextOpen (l := b :: more) ⟨apart.running, apart.ready, apart.free, apart.timed⟩
    (by simp [noRead]) (by simp [noWrite]) (prepare.trans first) (by simp [HttpMgmt.setCtx, HttpContext.zero]) (by omega)) ?_
  rintro _ v ⟨_, R, owned, handed, rfl, entered⟩
  obtain ⟨pfd, context⟩ := entered.context
  rw [wp_pure]
  refine ⟨rfl, ?_⟩
  simp only [HttpMgmt.setCtx, HttpMgmt.note, update_self] at context
  constructor
  case caches => rw [caches, entered.caches]; rfl
  case timed => exact entered.timed
  case ready => exact entered.ready
  case status => rw [context]
  case connects => simp [context]
  case errcode => rw [context]
  case deadline => rw [context]
  case seq => rw [context]
  case host => rw [context]; exact ⟨b, more, first, zero, found⟩
  case buffers => rw [entered.rings, owned, first]
  case handed => rw [entered.rings, handed]

theorem wp_sysSocket_failed {post : Int → DevState → Prop} {err : Fault → Prop} {e : Errno}
    (failed : w.data.replies.headD (.fail .again) = .fail e)
    (next : post (-1) { w with data := { w.data with replies := w.data.replies.tail, errno := e } }) :
    Wp sysSocket post err w := by
  rw [sysSocket, wp_bind, reply, wp_bind, wp_data, wp_bind, wp_modify, wp_pure, failed]
  exact next

/-- Where a context cannot be created, none is taken although the creation seems to succeed, or
one is missing after it has failed. -/
theorem wp_httpContextCreate_uncreatable (impossible : ¬ Creatable w) :
    Wp (httpContextCreate timeout)
      (fun rc v => (rc = 0 ∧ v.data.ctxCaches = w.data.ctxCaches) ∨
        (rc ≠ 0 ∧ v.data.ctxCaches.length + 1 = w.data.ctxCaches.length)) (fun _ => True) w := by
  rw [httpContextCreate, wp_bind, allocContext, wp_bind, wp_data]
  cases caches : w.data.ctxCaches with
  | nil => exact .inl ⟨rfl, caches⟩
  | cons c rest =>
    dsimp only
    rw [wp_bind, wp_modify, wp_pure]
    dsimp only
    rw [wp_bind, wp_setCtx, wp_bind, wp_perform]
    refine ⟨fun R₁ done₁ => ?_, fun _ => trivial⟩
    obtain ⟨read, items₁, -⟩ := wipe_effect done₁
    rw [wp_bind, wp_perform]
    refine ⟨fun R₂ done₂ => ?_, fun _ => trivial⟩
    obtain ⟨write, items₂, -⟩ := wipe_effect done₂
    have prepare : R₂.items .prepare = w.rings.items .prepare := by
      rw [items₂, update_of_ne (by simp), items₁, update_of_ne (by simp)]
    rw [items₁, update_of_ne (by simp)] at write
    rw [wp_bind]
    by_cases named : ∃ hostname port, NamesHost hostname port w
    · obtain ⟨hostname, port, names⟩ := named
      have failed : ∃ e, w.data.replies.headD (.fail .again) = .fail e := by
        by_contra given
        exact impossible ⟨⟨c, rest, caches, read, write⟩, ⟨hostname, port, names⟩, fun e same => given ⟨e, same⟩⟩
      obtain ⟨e, failed⟩ := failed
      refine wp_hostInit (names.framed rfl prepare) ?_
      rw [wp_ite, if_neg (by simp), wp_bind]
      refine wp_sysSocket_failed failed ?_
      rw [wp_ite, if_pos rfl]
      exact .inr ⟨by decide, rfl⟩
    · refine wp_hostInit_absent ?_ ?_
      · rintro ⟨hostname, port, names⟩
        exact named ⟨hostname, port, names.framed rfl prepare.symm⟩
      · rw [wp_ite, if_pos (by decide)]
        exact .inr ⟨by decide, rfl⟩

theorem creatable_of_allOrNothing (all : AllOrNothing timeout w) : Creatable w := by
  obtain ⟨rc, v, ran, outcome⟩ := all
  by_contra impossible
  rcases wp_of_run ran (wp_httpContextCreate_uncreatable impossible) with ⟨zero, same⟩ | ⟨other, fewer⟩
  · rcases outcome with ⟨_, c, taken⟩ | ⟨other, _⟩
    · have lengths := congrArg List.length (same.symm ▸ taken.caches)
      simp at lengths
    · exact other zero
  · rcases outcome with ⟨zero, _⟩ | ⟨_, untouched⟩
    · exact other zero
    · rw [untouched.caches] at fewer
      omega

theorem allOrNothing_iff (free : FreeApart w) : AllOrNothing timeout w ↔ Creatable w :=
  ⟨creatable_of_allOrNothing, allOrNothing_of_creatable free⟩

theorem freeApart_of_orderly {P : Int → Prop} (orderly : Orderly P w.data) : FreeApart w := by
  intro c rest caches
  obtain ⟨sound, running⟩ := orderly
  have idle := sound.free c (caches ▸ List.mem_cons_self)
  have once := caches ▸ sound.freeOnce
  obtain ⟨away, untimed⟩ := sound.away idle
  obtain ⟨notRunning, low, high⟩ := not_linked.mp away
  exact ⟨notRunning, ⟨low, high⟩, (List.nodup_cons.mp once).1, untimed⟩

theorem orderly_of_run {P : Int → Prop} {α : Type} {code : DevM α} [calms : Calms code] {a : α}
    (ran : code.run w = .ok (a, v)) (orderly : Orderly P w.data) : Orderly P v.data := by
  obtain ⟨lists, answered⟩ := answered_of_run ran
  have calm := (every_answered (calms.along w.data) lists).1 _ _ _ answered
  exact orderly.calm calm

/-- A fragment completes a request, and a context is to be created for it in the state `u`. -/
def Creates (w : DevState) (o : Occasion) (u : DevState) : Prop :=
  ∃ buf, o.event = .receive buf ∧ (collect buf).run (DevState.at w o) = .ok (.complete, u) ∧
    u.data.bufPrepare.type = httpCReq

/-- Whenever a context is created for a request, the creation is all or nothing exactly if there is
a free context with nothing on its lists, a host is named, and there is a socket. -/
theorem creates_all_or_nothing {u : DevState} {o : Occasion} (reached : Reach Manager.step (fun _ _ => True) Starts w)
    (creates : Creates w o u) : AllOrNothing 10 u ↔ Creatable u := by
  obtain ⟨buf, _, ran, _⟩ := creates
  have orderly := (orderly_of_reached (reached_of_reached reached)).tick o.now o.replies
  exact allOrNothing_iff (freeApart_of_orderly (orderly_of_run ran orderly))

end

/-! A request that names a host, and one that does not. -/

/-- The fragment completes a request in the device as it is at first. -/
def completes (frame : List Byte) (passes : DevState → Bool) : Bool :=
  match (collect frame).run (DevState.at Reassembly.device ⟨.receive frame, 1, [.value 5]⟩) with
  | .ok (.complete, u) => decide (u.data.bufPrepare.type = httpCReq) && passes u
  | _ => false

theorem creates_of_completes {frame : List Byte} {passes : DevState → Bool} (complete : completes frame passes = true) :
    ∃ u, Creates Reassembly.device ⟨.receive frame, 1, [.value 5]⟩ u ∧ passes u = true := by
  rw [completes] at complete
  split at complete
  next u ran =>
    rw [Bool.and_eq_true, decide_eq_true_eq] at complete
    exact ⟨u, ⟨frame, rfl, ran, complete.1⟩, complete.2⟩
  next => cases complete

theorem reached_device : Reach Manager.step (fun _ _ => True) Starts Reassembly.device :=
  .start Reassembly.device_starts

theorem requestFrame_completes : completes requestFrame (fun _ => true) = true := by decide +kernel

theorem creates_all_or_nothing_first : ∃ u, Creates Reassembly.device ⟨.receive requestFrame, 1, [.value 5]⟩ u ∧
    (AllOrNothing 10 u ↔ Creatable u) := by
  obtain ⟨u, creates, _⟩ := creates_of_completes requestFrame_completes
  exact ⟨u, creates, creates_all_or_nothing reached_device creates⟩

/-- A request without the name of a host. -/
def hostlessFrame : List Byte :=
  headerBytes httpCReq 7 ((text "GET / HTTP/1.1\r\n\r\n").length + httpCHeaderLen) ++ text "GET / HTTP/1.1\r\n\r\n"

def hostless (u : DevState) : Bool :=
  match u.rings.items .prepare with
  | some (b :: _) =>
    match getHostFromBuf (cString ((u.data.bufs b).buf.slice 0 bufRoom)) with
    | .absent => true
    | _ => false
  | _ => false

theorem not_creatable_of_hostless {u : DevState} (none : hostless u = true) : ¬ Creatable u := by
  rintro ⟨_, ⟨hostname, port, b, rest, first, _, found⟩, _⟩
  rw [hostless, first] at none
  simp only [found] at none
  cases none

theorem hostlessFrame_completes : completes hostlessFrame hostless = true := by decide +kernel

theorem hostless_request_leaks : ¬ ∀ w o u, Reach Manager.step (fun _ _ => True) Starts w → Creates w o u → AllOrNothing 10 u := by
  intro always
  obtain ⟨u, creates, none⟩ := creates_of_completes hostlessFrame_completes
  exact not_creatable_of_hostless none (creatable_of_allOrNothing (always _ _ u reached_device creates))

end WebTunnel.Device.Creating
