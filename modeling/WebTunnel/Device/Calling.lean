import WebTunnel.Device.Answering
import WebTunnel.Device.Scheduler

/-! The calls of the scheduler of HTTP contexts, and its invariant between any two calls, whatever
the sockets answer and the lists of buffers hold. -/

namespace WebTunnel.Device.Calling
set_option synthInstance.maxSize 10000
open Library.Bytes Library.Lists Library.Routines Library.Routines.Routine Library.Run Function Device.Types Buffers
open Parsing Http Forward Tunnel Manager Responses Scheduling Scheduler

section
variable {P : Int → Prop} {busy : Option CtxId} {c : CtxId} {s t d : HttpMgmt}

/-! Running a context. -/

theorem every_httpContextConnect :
    (httpContextConnect c).Every (fun status _ => status ≠ .pending) (fun _ => True) s := by
  unfold httpContextConnect
  refine every_next fun ctx _ => ?_
  have tried {t : HttpMgmt} : Every (do
      let pfd ← getPollFd (← deref ctx.pfd)
      let rc ← (if pfd.revents = pollOut then pure 0 else do
        let host ← nameResolve ctx.hostname
        sysConnect (.http c) host (toUnsigned 16 ctx.port))
      let d ← data
      if 0 ≤ rc then
        setCtx c { ctx with state := .write, funcRun := .write, line := .start }
        return .continue
      else if d.errno = .already ∨ d.errno = .inProgress then
        setEvents (.http c) ctx.pfd fun events => events &&& ~~~pollIn ||| pollOut
        setCtx c { ctx with line := .inProgress }
        return .continue
      else
        setCtx c { ctx with errcode := 3, line := .failed }
        return .finish : DevM CallerStatus) (fun status _ => status ≠ .pending) (fun _ => True) t := by
    refine every_next fun slot _ => every_next fun pfd _ => every_next fun rc _ => every_next fun d _ => ?_
    split
    · exact every_next fun _ _ => by simp
    · split
      · exact every_next fun _ _ => every_next fun _ _ => by simp
      · exact every_next fun _ _ => by simp
  split
  · exact tried
  · exact tried
  · exact tried
  · exact every_next fun _ _ => by simp

theorem every_wroteBytes (b : BufId) (n : Int) :
    (wroteBytes c b n).Every (fun status _ => ∀ status', status = some status' → status' ≠ .continue) (fun _ => True) s := by
  unfold wroteBytes
  refine every_next fun info _ => every_next fun _ _ => ?_
  split
  · refine every_next fun _ _ => every_next fun _ _ => every_next fun _ _ => ?_
    rintro _ ⟨⟩
    simp
  · exact every_next fun _ _ => every_next fun _ _ => every_next fun _ _ => every_next fun _ _ => by simp

/-- What comes after bytes were written. -/
theorem every_wrote_then {b : BufId} {n : Int} {next : DevM CallerStatus}
    (goes : ∀ t, next.Every (fun status _ => status ≠ .continue) (fun _ => True) t) : Every (do
      match ← wroteBytes c b n with
      | some status => return status
      | none => next) (fun status _ => status ≠ .continue) (fun _ => True) s := by
  rw [every_bind]
  refine every_post (every_wroteBytes b n) fun status t other => ?_
  cases status with
  | none => exact goes t
  | some status => exact other status rfl

theorem every_writeLoop (count : Nat) :
    (writeLoop c count).Every (fun status _ => status ≠ .continue) (fun _ => True) s := by
  induction count generalizing s with
  | zero => trivial
  | succ count ih =>
    rw [writeLoop]
    refine every_next fun ctx _ => ?_
    cases ctx.bufWrite.curr with
    | none => exact every_next fun _ _ => every_next fun _ _ => every_next fun _ _ => every_next fun _ _ => by simp
    | some b =>
      refine every_next fun info _ => every_next fun bytes _ => every_next fun n _ => ?_
      split
      · refine every_next fun d _ => ?_
        split <;> exact every_next fun _ _ => by simp
      · exact every_wrote_then fun _ => ih

theorem every_httpContextWrite :
    (httpContextWrite c).Every (fun status _ => status ≠ .continue) (fun _ => True) s := by
  unfold httpContextWrite
  refine every_next fun ctx _ => ?_
  split
  · refine every_next fun curr _ => every_next fun _ _ => every_next fun ctx _ => ?_
    cases ctx.bufWrite.curr with
    | none => exact every_next fun _ _ => every_next fun _ _ => by simp
    | some b => exact every_writeLoop _
  · exact every_writeLoop _
  · exact every_writeLoop _
  · exact every_next fun _ _ => every_wrote_then fun _ => every_writeLoop _
  · exact every_next fun _ _ => every_wrote_then fun _ => every_writeLoop _
  · exact every_next fun _ _ => by simp

theorem every_httpContextRead :
    (httpContextRead c).Every (fun status _ => status ≠ .continue) (fun _ => True) s := by
  unfold httpContextRead
  refine every_next fun ctx _ => ?_
  split
  case h_3 => exact every_next fun _ _ => by simp
  case h_4 => exact every_next fun _ _ => by simp
  all_goals
    refine every_next fun b _ => every_next fun info _ => ?_
    dsimp only
    refine every_next fun _ _ => every_next fun got _ => ?_
    split
    · exact every_next fun _ _ => every_next fun _ _ => every_next fun _ _ => every_next fun _ _ =>
        every_next fun _ _ => by simp
    · refine every_next fun d _ => ?_
      split
      · exact every_next fun _ _ => every_next fun _ _ => every_next fun _ _ => by simp
      · exact every_next fun _ _ => by simp

/-- What a context does: one that connects goes on or is at its end, another does not go on. -/
theorem every_runHttp :
    (runHttp c).Every (fun status t => Calm s t ∧
      (status = .continue → (s.ctxs c).funcRun = .connect) ∧ (status = .pending → (s.ctxs c).funcRun ≠ .connect))
      unbroken s := by
  have calm : Calms (runHttp c) := inferInstance
  refine every_and (calm.along s) ?_
  rw [runHttp, every_bind, every_getCtx]
  cases connect : (s.ctxs c).funcRun with
  | connect => exact every_post every_httpContextConnect fun status t other => ⟨fun _ => rfl, fun same => absurd same other⟩
  | write => exact every_post every_httpContextWrite fun status t other => ⟨fun same => absurd same other, by simp⟩
  | read => exact every_post every_httpContextRead fun status t other => ⟨fun same => absurd same other, by simp⟩

theorem every_httpContextExecute (sound : Sound P none s) (asks : asking c s.acts = true) :
    (httpContextExecute c).Every (fun _ t => Sound P none t ∧ t.running = s.running.erase c) unbroken s := by
  rw [httpContextExecute, every_bind, every_getCtx, every_bind]
  refine every_post (every_leave sound asks) fun _ u ⟨left, running, _, acts, _⟩ => ?_
  rw [every_bind]
  refine every_post every_runHttp fun status v ⟨calm, goes, waits⟩ => ?_
  have ran := left.calm calm
  have asks : asking c u.acts = true := acts ▸ asks
  have asks' : asking c v.acts = true := (calm.asking c).trans asks
  have running : v.running = s.running.erase c := calm.running.trans running
  cases status with
  | finish =>
    have reported : Stills (when ((v.ctxs c).errcode ≠ 0) do generateError c : DevM Unit) := inferInstance
    rw [every_bind, every_getCtx]
    refine every_still_then (.refl v) fun _ x still => ?_
    refine every_post (every_httpContextRelease (ran.calm still.toCalm) ((still.asking c).trans asks')) ?_
    exact fun _ t ⟨sound, same, _⟩ => ⟨sound, (same.trans still.running).trans running⟩
  | «continue» =>
    have ready : (v.ctxs c).status = .ready := (calm.status c).trans (left.connecting c asks (goes rfl))
    have away : c ∉ linked v := fun member => ((ran.ready c).mp member).2.2 rfl
    refine every_post (every_insertReadyPrio away (ran.not_free asks')) fun _ t same => ?_
    subst same
    exact ⟨ran.relinked asks' ready, running⟩
  | pending =>
    rw [every_bind, every_getCtx, every_setCtx]
    refine ⟨ran.pending (fun connect => waits rfl (calm.connecting c connect)) fun idle => ?_, running⟩
    cases idle.symm.trans asks'

theorem every_serviceHttp (sound : Sound P none s) (asks : asking c s.acts = true) (revents : PollEvents) :
    (serviceHttp c revents).Every (fun _ t => Sound P none t ∧ t.running = s.running.erase c) unbroken s := by
  rw [serviceHttp, every_ite]
  split
  · rw [every_bind, every_getCtx, every_bind]
    refine every_post (every_leave sound asks) ?_
    rintro _ u ⟨left, running, _, acts, _⟩
    rw [every_bind, every_getCtx]
    have finished : Stills (when ((u.ctxs c).state = .read) do let _ ← httpContextFinish c : DevM Unit) := inferInstance
    refine every_still_then (.refl u) fun _ v still => ?_
    refine every_post (every_httpContextRelease (left.calm still.toCalm) ?_) ?_
    · rw [still.asking, acts]
      exact asks
    · rintro _ t ⟨sound, same, _⟩
      exact ⟨sound, (same.trans still.running).trans running⟩
  · exact every_httpContextExecute sound asks

/-- A context that was released may still be found under a descriptor that was not cleared. What
it is made to do does no harm, or misuses a list. -/
theorem every_serviceHttp_released (sound : Sound P none s) (idle : asking c s.acts = false) (revents : PollEvents) :
    (serviceHttp c revents).Every (fun _ t => Sound P none t ∧ t.running = s.running) (fun _ => True) s := by
  obtain ⟨unlinked, unlisted⟩ := sound.away idle
  have left {α : Type} {next : Unit → DevM α} {post : α → HttpMgmt → Prop}
      (after : (s.ctxs c).status ≠ .ready → (next ()).Every post (fun _ => True) s) : Every (do
        let r ← when ((s.ctxs c).status = .ready) do unready c
        next r) post (fun _ => True) s := by
    rw [every_bind, every_when]
    refine ⟨fun _ => ?_, after⟩
    rw [unready, every_bind, every_data, every_bind, every_demand]
    refine ⟨fun member => absurd ?_ unlinked, fun _ => trivial⟩
    simpa only [linked, List.mem_append] using member
  rw [serviceHttp, every_ite]
  split
  · rw [every_bind, every_getCtx]
    refine left fun _ => ?_
    rw [every_bind, every_getCtx]
    have finished : Stills (when ((s.ctxs c).state = .read) do let _ ← httpContextFinish c : DevM Unit) := inferInstance
    exact every_calm_then fun _ t calm => every_release_unlisted (by rwa [calm.listTimeout])
  · rw [httpContextExecute, every_bind, every_getCtx]
    refine left fun unready => ?_
    rw [every_bind]
    refine every_mono every_runHttp ?_ fun _ _ => trivial
    rintro status v ⟨calm, _, waits⟩
    have free : c ∈ v.ctxCaches := by
      rw [calm.ctxCaches]
      exact (sound.idle c idle).resolve_right unready
    have busy : Sound P (some c) v := (sound.busy_of_unready unready).calm calm
    cases status with
    | finish =>
      have reported : Stills (when ((v.ctxs c).errcode ≠ 0) do generateError c : DevM Unit) := inferInstance
      rw [every_bind, every_getCtx]
      exact every_calm_then fun _ t calm' =>
        every_release_unlisted (by rwa [calm'.listTimeout, calm.listTimeout])
    | «continue» =>
      rw [insertReadyPrio, every_bind, every_getCtx]
      dsimp only
      rw [every_bind, every_setCtx, every_bind, every_data, every_bind, every_demand]
      exact ⟨fun away => absurd free away.2.2.2, fun _ => trivial⟩
    | pending =>
      rw [every_bind, every_getCtx, every_setCtx]
      exact ⟨busy.pending (fun connect => waits rfl (calm.connecting c connect)) fun _ => free, calm.running⟩

/-! The calls of the manager. -/

/-- Between two calls nothing is busy. -/
def Orderly (P : Int → Prop) (d : HttpMgmt) : Prop := Sound P none d ∧ d.running = []

theorem Orderly.calm (orderly : Orderly P s) (calm : Calm s t) : Orderly P t :=
  ⟨orderly.1.calm calm, calm.running.trans orderly.2⟩

theorem every_forceRelease (sound : Sound P none s) (asks : asking c s.acts = true) :
    (forceRelease c).Every (fun _ t => Sound P none t ∧ t.running = s.running.erase c ∧
      t.listTimeout = s.listTimeout.erase c ∧ t.now = s.now) unbroken s := by
  rw [forceRelease, every_bind, every_getCtx, every_bind]
  refine every_post (every_leave sound asks) fun _ u ⟨left, running, _, acts, now, listTimeout⟩ => ?_
  refine every_post (every_httpContextRelease left (acts ▸ asks)) fun _ t ⟨sound, running', listTimeout', now'⟩ => ?_
  exact ⟨sound, running'.trans running, listTimeout'.trans (congrArg (List.erase · c) listTimeout), now'.trans now⟩

/-- Every context whose deadline has come is released, the list being in the order of deadlines. -/
theorem every_releaseExpired {l : List CtxId} (orderly : Orderly P s) (all : s.listTimeout = l) :
    (releaseExpired l).Every (fun _ t => Orderly P t ∧ t.now = s.now ∧
      ∀ c ∈ t.listTimeout, t.now < (t.ctxs c).timeout) unbroken s := by
  induction l generalizing s with
  | nil =>
    refine ⟨orderly, rfl, fun c member => ?_⟩
    rw [all] at member
    cases member
  | cons c rest ih =>
    obtain ⟨sound, running⟩ := orderly
    have asks : asking c s.acts = true := (sound.timed c).mp (all ▸ List.mem_cons_self)
    rw [releaseExpired, every_bind, every_data, every_when]
    constructor
    · intro due
      rw [every_bind]
      refine every_post (every_forceRelease sound asks) ?_
      rintro _ u ⟨sound', running', listTimeout, now⟩
      rw [running] at running'
      rw [all, List.erase_cons_head] at listTimeout
      refine every_post (ih ⟨sound', running'⟩ listTimeout) ?_
      rintro _ t ⟨orderly, now', rest⟩
      exact ⟨orderly, now'.trans now, rest⟩
    · intro later
      refine ⟨⟨sound, running⟩, rfl, fun c' member => ?_⟩
      have sorted := sound.sorted
      rw [all] at member sorted
      rcases List.mem_cons.mp member with rfl | member
      · exact not_le.mp later
      · exact lt_of_lt_of_le (not_le.mp later) ((List.rel_of_pairwise_cons sorted member).elim le_of_lt fun same => same.1.le)

theorem every_httpMgmtRunTimeout (orderly : Orderly P s) :
    httpMgmtRunTimeout.Every (fun _ t => Orderly P t ∧ t.now = s.now ∧ ∀ c ∈ t.listTimeout, t.now < (t.ctxs c).timeout)
      unbroken s := by
  rw [httpMgmtRunTimeout, every_bind, every_data]
  exact every_releaseExpired orderly rfl

theorem every_forceReleases {l : List CtxId} (orderly : Orderly P s) (all : s.listTimeout = l) :
    (l.forM forceRelease).Every (fun _ t => Orderly P t) unbroken s := by
  induction l generalizing s with
  | nil => exact orderly
  | cons c rest ih =>
    obtain ⟨sound, running⟩ := orderly
    have asks : asking c s.acts = true := (sound.timed c).mp (all ▸ List.mem_cons_self)
    change Every (forceRelease c >>= fun _ => rest.forM forceRelease) _ _ s
    rw [every_bind]
    refine every_post (every_forceRelease sound asks) fun _ u ⟨sound', running', listTimeout, _⟩ => ?_
    rw [running] at running'
    rw [all, List.erase_cons_head] at listTimeout
    exact ih ⟨sound', running'⟩ listTimeout

theorem every_httpMgmtReleaseAll (orderly : Orderly P s) :
    httpMgmtReleaseAll.Every (fun _ t => Orderly P t) unbroken s := by
  rw [httpMgmtReleaseAll]
  refine every_still_then (.refl s) fun _ u still => ?_
  rw [every_bind, every_data]
  exact every_forceReleases (orderly.calm still.toCalm) rfl

/-- The contexts that were ready are gone through. -/
theorem every_executes {l : List CtxId} (sound : Sound P none s) (all : s.running = l) :
    (l.forM httpContextExecute).Every (fun _ t => Orderly P t) unbroken s := by
  induction l generalizing s with
  | nil => exact ⟨sound, all⟩
  | cons c rest ih =>
    have asks : asking c s.acts = true := ((sound.ready c).mp (List.mem_append_left _ (all ▸ List.mem_cons_self))).1
    change Every (httpContextExecute c >>= fun _ => rest.forM httpContextExecute) _ _ s
    rw [every_bind]
    refine every_post (every_httpContextExecute sound asks) fun _ u ⟨sound', running⟩ => ?_
    rw [all, List.erase_cons_head] at running
    exact ih sound' running

theorem every_httpMgmtRun (orderly : Orderly P s) : httpMgmtRun.Every (fun _ t => Orderly P t) unbroken s := by
  obtain ⟨sound, running⟩ := orderly
  have same : linked { s with
      running := s.listReady 0 ++ s.listReady 1, listReady := update (update s.listReady 0 []) 1 [] } = linked s := by
    unfold linked
    dsimp only
    rw [running, update_self, update_of_ne (by decide : (0 : Int) ≠ 1), update_self, List.append_nil, List.append_nil,
      List.nil_append]
  have taken : Sound P none { s with
      running := s.listReady 0 ++ s.listReady 1, listReady := update (update s.listReady 0 []) 1 [] } :=
    { sound with
      ready := fun c => by
        rw [same]
        exact sound.ready c
      once := same.symm ▸ sound.once
      prio := fun c => by
        dsimp only
        rw [update_self, update_of_ne (by decide : (0 : Int) ≠ 1), update_self]
        exact ⟨by simp, by simp⟩
      count := by
        rw [same]
        exact sound.count }
  have unsynced : Calms (modify fun d : HttpMgmt => { d with syncPrepare := false } : DevM Unit) :=
    along_modify fun _ => calm_of_same rfl
  rw [httpMgmtRun, every_bind, every_data, every_bind, every_modify, every_bind]
  refine every_post (every_executes taken rfl) fun _ t orderly => ?_
  rw [every_bind, every_data, every_bind, every_demand]
  refine ⟨fun _ => ?_, fun left => absurd orderly.2 left⟩
  have rest : Calms (do
      tcpServerRun
      let d ← data
      when (d.syncPrepare ∧ httpTimeoutSecs < d.now - d.syncTime) do
        modify fun d => { d with syncPrepare := false }
      when (4 * httpTimeoutSecs < d.now - d.lastAliveTime) websocketClosed : DevM Unit) := inferInstance
  exact every_post (rest.along t) fun _ _ => orderly.calm

/-! The creation of a context. -/

theorem every_insertTimeout (away : c ∉ s.listTimeout) :
    (insertTimeout c).Every (fun _ t => t =
      { s with listTimeout := insertByTimeout (fun c => (s.ctxs c).timeout) c s.listTimeout }) unbroken s := by
  rw [insertTimeout, every_bind, every_data, every_bind, every_demand]
  exact ⟨fun _ => rfl, fun listed => absurd away listed⟩

/-- A context that was given a request and a descriptor becomes ready. -/
theorem every_httpContextInit {fd : Int} {ctx : HttpContext} (orderly : Orderly P s) (idle : asking c s.acts = false)
    (used : c ∉ s.ctxCaches) (positive : 0 ≤ fd) (sockfd : ctx.sockfd = fd) (deadline : P ctx.timeout) :
    (httpContextInit c).Every (fun _ t => Orderly P t) unbroken (asked c fd ctx s) := by
  obtain ⟨sound, running⟩ := orderly
  obtain ⟨away, untimed⟩ := sound.away idle
  have counted : Calms (modify fun d : HttpMgmt => { d with totalAdd := d.totalAdd + 1 } : DevM Unit) :=
    along_modify fun _ => calm_of_same rfl
  rw [httpContextInit, every_bind, every_getCtx, every_bind, every_setCtx]
  have self : (asked c fd ctx s).ctxs c = ctx := setCtx_self ..
  have same (ctx' : HttpContext) : (asked c fd ctx s).setCtx c ctx' = asked c fd ctx' s := by
    unfold asked HttpMgmt.setCtx
    dsimp only
    rw [update_idem]
  rw [self, same]
  generalize start : ({ ctx with errcode := 0, state := .connect, funcRun := .connect, status := .ready, line := .start } :
    HttpContext) = ctx'
  have ready : ctx'.status = .ready := start ▸ rfl
  have sockfd' : ctx'.sockfd = fd := start ▸ sockfd
  have deadline' : P ctx'.timeout := start ▸ deadline
  rw [every_bind]
  refine every_post (every_insertReadyPrio (s := asked c fd ctx' s) away used) fun _ u made => ?_
  subst made
  rw [every_bind]
  refine every_post (every_insertTimeout (s := relinked c (asked c fd ctx' s)) untimed) fun _ u made => ?_
  have made : u = opened c fd ctx' s := made
  have sound' : Sound P none (opened c fd ctx' s) := sound.opened idle ready used deadline'
  rw [← made] at sound'
  have asks : asking c u.acts = true := made ▸ if_pos rfl
  have given : .socket (.http c) fd ∈ u.acts := made ▸ List.mem_cons_self
  have descriptor : (u.ctxs c).sockfd = fd := by
    have context := context_relinked (c := c) (d := asked c fd ctx' s) c
    simp only [Prod.mk.injEq] at context
    rw [made]
    exact context.2.2.1.trans ((congrArg HttpContext.sockfd (setCtx_self ..)).trans sockfd')
  have running' : u.running = [] := made ▸ running
  refine every_along_then (Calm.refl u) fun _ v calm => every_along_then calm fun pfd x calm => ?_
  rw [every_bind, every_getCtx, every_bind, every_setCtx]
  have set : Still x (x.setCtx c { x.ctxs c with pfd }) := Still.setCtx (.refl x) rfl id
  have polled := calm.trans set.toCalm
  have owned := (sound'.calm polled).lookedUp ((polled.asking c).trans asks) (polled.acts _ given) positive
    ((polled.sockfd c).trans descriptor)
  rw [sockfd]
  exact ⟨owned, polled.running.trans running'⟩

/-- A context is taken out of the pool and its memory is cleared. -/
theorem Orderly.taken {rest : List CtxId} (orderly : Orderly P s) (all : s.ctxCaches = c :: rest) :
    Orderly P ({ s with ctxCaches := rest }.setCtx c .zero) ∧ asking c s.acts = false ∧ c ∉ rest := by
  obtain ⟨sound, running⟩ := orderly
  have idle := sound.free c (all ▸ List.mem_cons_self)
  have once := all ▸ sound.freeOnce
  obtain ⟨away, untimed⟩ := sound.away idle
  obtain ⟨_, first, second⟩ := not_linked.mp away
  have other (c' : CtxId) (apart : c' ≠ c) : ({ s with ctxCaches := rest }.setCtx c .zero).ctxs c' = s.ctxs c' :=
    setCtx_other apart ..
  have asker {c' : CtxId} (asks : asking c' s.acts = true) : c' ≠ c := fun same => by
    cases idle.symm.trans (same ▸ asks)
  refine ⟨⟨?_, running⟩, idle, (List.nodup_cons.mp once).1⟩
  constructor
  case ready =>
    intro c'
    change c' ∈ linked s ↔ asking c' s.acts = true ∧ _
    rw [sound.ready]
    refine and_congr_right fun asks => ?_
    rw [other c' (asker asks)]
  case once => exact sound.once
  case prio =>
    intro c'
    change (c' ∈ s.listReady 0 → _) ∧ (c' ∈ s.listReady 1 → _)
    by_cases same : c' = c
    · subst same
      exact ⟨fun member => absurd member first, fun member => absurd member second⟩
    · rw [other c' same]
      exact sound.prio c'
  case count => exact sound.count
  case connecting =>
    intro c' asks
    rw [other c' (asker asks)]
    exact sound.connecting c' asks
  case timed => exact sound.timed
  case timedOnce => exact sound.timedOnce
  case sorted =>
    refine sound.sorted.imp_of_mem fun {a b} first second earlier => ?_
    rwa [Earlier, other a (asker ((sound.timed a).mp first)), other b (asker ((sound.timed b).mp second))]
  case deadlines =>
    intro c' member
    rw [other c' (asker ((sound.timed c').mp member))]
    exact sound.deadlines c' member
  case free =>
    exact fun c' member => sound.free c' (all ▸ List.mem_cons_of_mem c member)
  case freeOnce => exact (List.nodup_cons.mp once).2
  case idle =>
    intro c' idle'
    by_cases same : c' = c
    · subst same
      rw [setCtx_self]
      exact .inr rfl
    · rw [other c' same]
      exact (sound.idle c' idle').imp_left fun member => (List.mem_cons.mp (all ▸ member)).resolve_left same
  case found =>
    intro fd c' found
    obtain ⟨positive, given, owner⟩ := sound.found fd c' found
    refine ⟨positive, given, owner.imp_right fun open' => ⟨open'.1, ?_⟩⟩
    rw [other c' (asker open'.1)]
    exact open'.2

theorem every_sysSocket : sysSocket.Every (fun fd t => Still s t ∧ -1 ≤ fd) unbroken s := by
  have still : Stills sysSocket := inferInstance
  refine every_and (still.along s) ?_
  unfold sysSocket
  refine every_next fun r t => ?_
  cases r with
  | fail e => exact every_next fun _ _ => le_refl _
  | value n => exact le_trans (by decide) (Int.natCast_nonneg n)
  | data bytes => exact le_trans (by decide) (Int.natCast_nonneg bytes.length)

theorem every_httpContextCreate {timeout : Int} (orderly : Orderly P s) (deadline : P (s.now + timeout)) :
    (httpContextCreate timeout).Every (fun _ t => Orderly P t) unbroken s := by
  rw [httpContextCreate, every_bind, allocContext, every_bind, every_data]
  cases all : s.ctxCaches with
  | nil => exact orderly
  | cons c rest =>
    obtain ⟨taken, idle, used⟩ := orderly.taken all
    have wiped (h : BufHead) : Stills (perform (.wipe h)) := along_perform _
    rw [every_bind, every_modify, every_pure]
    dsimp only
    rw [every_bind, every_setCtx]
    generalize zeroed : ({ s with ctxCaches := rest }.setCtx c .zero : HttpMgmt) = u at taken
    have now : u.now = s.now := zeroed ▸ rfl
    have idle : asking c u.acts = false := zeroed ▸ idle
    have used : c ∉ u.ctxCaches := zeroed ▸ used
    refine every_still_then (.refl u) fun _ _ still => every_still_then still fun _ _ still =>
      every_still_then still fun rc v still => ?_
    rw [every_ite]
    split
    · exact taken.calm still.toCalm
    · rw [every_bind]
      refine every_post every_sysSocket fun fd x ⟨still', least⟩ => ?_
      have still := IsTrans.trans _ _ _ still still'
      rw [every_ite]
      split
      · exact taken.calm still.toCalm
      next open' =>
        rw [every_bind, contextOpen, every_bind, every_note, every_bind, every_initListHead, every_bind,
          every_initListHead, every_bind, every_data, every_bind, every_getCtx, every_bind, every_setCtx, every_bind,
          every_listSpliceInit]
        refine every_post (every_httpContextInit (taken.calm still.toCalm) ?_ ?_ (by omega) rfl ?_) fun _ _ done => done
        · exact (still.asking c).trans idle
        · exact still.ctxCaches ▸ used
        · change P (x.now + timeout)
          rwa [still.now, now]

/-! Whatever happens to the device. -/

instance (buf : List Byte) : Stills (prepareHeader buf) := by
  unfold prepareHeader
  dsimp only
  refine along_next fun d => @along_ite _ _ _ _ _ _ _ _ _ _ _ inferInstance (@along_ite _ _ _ _ _ _ _ _ _ _ _ inferInstance ?_)
  cases readHeader buf <;> infer_instance

instance (b : Option BufId) : Stills (prepareBuf b) := by
  unfold prepareBuf
  cases b with
  | some b => infer_instance
  | none =>
    refine along_next fun b => ?_
    cases b <;> infer_instance

instance (b : BufId) (buf : List Byte) : Stills (prepareFill b buf) := by
  unfold prepareFill
  dsimp only
  infer_instance

instance (b : Option BufId) (payload : List Byte) : Stills (prepareStore b payload) := by
  unfold prepareStore
  refine along_next fun b => ?_
  cases b with
  | none => infer_instance
  | some b =>
    refine along_next fun info => @along_ite _ _ _ _ _ _ _ _ _ _ _ (along_next fun _ => along_next fun b => ?_) inferInstance
    cases b <;> infer_instance

instance (buf : List Byte) : Stills (collect buf) := by
  unfold collect
  dsimp only
  refine along_next fun d => along_next fun _ => along_next fun header => ?_
  cases header <;> infer_instance

theorem every_dispatch (orderly : Orderly P s) (deadline : P (s.now + 10)) (type : Nat) :
    (dispatch type).Every (fun _ t => Orderly P t) unbroken s := by
  have shaken (bytes : List Byte) : Stills (modify fun d : HttpMgmt =>
      { d with clientId := natBE bytes, shakehand := true } : DevM Unit) := still_modify (fun _ => rfl) fun _ => rfl
  have calms {code : DevM Unit} [calms : Calms code] : code.Every (fun _ t => Orderly P t) unbroken s :=
    every_post (calms.along s) fun _ _ => orderly.calm
  unfold dispatch
  rw [every_ite]
  split
  · refine every_post ((along_next fun b => ?_ : Calms _).along s) fun _ _ => orderly.calm
    cases b <;> infer_instance
  · rw [every_ite]
    split
    · exact calms
    · rw [every_ite]
      split
      · exact calms
      · rw [every_ite]
        split
        · rw [every_bind]
          refine every_post (every_httpContextCreate orderly deadline) fun rc t orderly => ?_
          have dropped : Calms (when (rc ≠ 0) releasePrepare) := inferInstance
          exact every_post (dropped.along t) fun _ _ => orderly.calm
        · exact calms

theorem every_httpMgmtPrepare (orderly : Orderly P s) (deadline : P (s.now + 10)) (buf : List Byte) :
    (httpMgmtPrepare buf).Every (fun _ t => Orderly P t) unbroken s := by
  unfold httpMgmtPrepare
  refine every_still_then (.refl s) fun received t still => ?_
  have orderly := orderly.calm still.toCalm
  cases received with
  | returned rc => exact orderly
  | complete =>
    rw [prepareProcess, every_bind, every_bind, every_data, every_bind]
    refine every_post (every_dispatch orderly (still.now ▸ deadline) _) fun _ u orderly => ?_
    have rest : Calms (do
        setPrepare fun pbuf => { pbuf with len := 0, totalLen := 0, type := 0 }
        setSync false : DevM Unit) := inferInstance
    exact every_post (rest.along u) fun _ _ => orderly.calm

instance (slot : Nat) : Stills (clearRevents slot) := by
  unfold clearRevents
  infer_instance

theorem every_serviceClient {k : ClientId} (listed : k ∈ s.listClient) (revents : PollEvents) :
    (serviceClient k revents).Every (fun _ t => Calm s t) unbroken s := by
  unfold serviceClient
  rw [every_ite]
  split
  · exact every_tcpClientRelease (.refl s) listed
  · refine every_still_then (.refl s) fun status t still => ?_
    have set (status : CallerStatus) : Stills (do
      setClient k { ← getClient k with status := statusAfter status } : DevM Unit) := inferInstance
    cases status with
    | finish => exact every_tcpClientRelease still listed
    | pending => exact every_post ((set .pending).along t) fun _ _ => still.toCalm.trans ∘ Still.toCalm
    | «continue» => exact every_post ((set .continue).along t) fun _ _ => still.toCalm.trans ∘ Still.toCalm

theorem every_serviceForward {f : FwdId} (listed : f ∈ s.listForward) :
    (serviceForward f).Every (fun _ t => Calm s t) unbroken s := by
  unfold serviceForward
  refine every_still_then (.refl s) fun status t still => ?_
  have set (status : CallerStatus) : Stills (do
    setForward f { ← getForward f with status := statusAfter status } : DevM Unit) := inferInstance
  cases status with
  | finish => exact every_tcpForwardRelease still listed
  | pending => exact every_post ((set .pending).along t) fun _ _ => still.toCalm.trans ∘ Still.toCalm
  | «continue» => exact every_post ((set .continue).along t) fun _ _ => still.toCalm.trans ∘ Still.toCalm

/-- Errors that are not the misuse of a list, unless a context was given the descriptor 0, which
it keeps when it is released. -/
def spared (d : HttpMgmt) (e : Fault) : Prop := e = .list → ∃ c, .socket (.http c) 0 ∈ d.acts

theorem spared_of_unbroken {e : Fault} (other : unbroken e) : spared d e := fun same => absurd same other

theorem every_serviceOwner (orderly : Orderly P s) {fd : Int} {owner : Owner} (found : s.httpLookup fd = some owner)
    (revents : PollEvents) : (serviceOwner owner revents).Every (fun _ t => Orderly P t) (spared s) s := by
  have spare {code : DevM Unit} (every : code.Every (fun _ t => Orderly P t) unbroken s) :
      code.Every (fun _ t => Orderly P t) (spared s) s := every_mono every (fun _ _ h => h) fun _ => spared_of_unbroken
  cases owner with
  | server =>
    have served : Calms serviceServer := by
      unfold serviceServer
      infer_instance
    exact spare (every_post (served.along s) fun _ _ => orderly.calm)
  | http c =>
    obtain ⟨sound, running⟩ := orderly
    obtain ⟨_, given, zero | ⟨asks, _⟩⟩ := sound.found fd c found
    · cases asks : asking c s.acts with
      | true =>
        refine spare (every_post (every_serviceHttp sound asks revents) fun _ t ⟨sound, same⟩ => ⟨sound, ?_⟩)
        rw [same, running]
        rfl
      | false =>
        refine every_mono (every_serviceHttp_released sound asks revents)
          (fun _ t ⟨sound, same⟩ => ⟨sound, same.trans running⟩) fun _ _ _ => ⟨c, zero ▸ given⟩
    · refine spare (every_post (every_serviceHttp sound asks revents) fun _ t ⟨sound, same⟩ => ⟨sound, ?_⟩)
      rw [same, running]
      rfl
  | client k =>
    refine spare ?_
    rw [serviceOwner, every_bind, every_data, every_bind, every_demand]
    exact ⟨fun listed => every_post (every_serviceClient listed revents) fun _ _ => orderly.calm, fun _ => by rintro ⟨⟩⟩
  | forward f =>
    refine spare ?_
    rw [serviceOwner, every_bind, every_data, every_bind, every_demand]
    exact ⟨fun listed => every_post (every_serviceForward listed) fun _ _ => orderly.calm, fun _ => by rintro ⟨⟩⟩

theorem every_httpMgmtService (orderly : Orderly P s) (slot : Nat) :
    (httpMgmtService slot).Every (fun _ t => Orderly P t) (spared s) s := by
  rw [httpMgmtService, every_bind]
  change Every (if (s.pollfds slot).revents = 0 then _ else _) _ _ s
  rw [every_ite]
  split
  · exact orderly
  · rw [every_bind, every_data]
    cases found : s.httpLookup (s.pollfds slot).fd with
    | none => exact orderly
    | some owner =>
      rw [every_bind]
      refine every_post (every_serviceOwner orderly found _) fun _ t orderly => ?_
      have cleared : Stills (do clearRevents slot; return 0 : DevM Int) := inferInstance
      exact every_mono (cleared.along t) (fun _ _ still => orderly.calm still.toCalm) fun _ => spared_of_unbroken

/-- An event leaves the lists of contexts in order. -/
theorem every_handle (orderly : Orderly P s) (deadline : P (s.now + 10)) (event : Event) :
    (handle event).Every (fun _ t => Orderly P t) (spared s) s := by
  have spare {code : DevM Unit} (every : code.Every (fun _ t => Orderly P t) unbroken s) :
      code.Every (fun _ t => Orderly P t) (spared s) s := every_mono every (fun _ _ h => h) fun _ => spared_of_unbroken
  have calms {code : DevM Unit} [calms : Calms code] : code.Every (fun _ t => Orderly P t) (spared s) s :=
    spare (every_post (calms.along s) fun _ _ => orderly.calm)
  cases event with
  | established =>
    have again : Calms (handle .established) := inferInstanceAs (Calms websocketWriteAgain)
    exact calms
  | receive buf =>
    rw [handle, every_bind]
    exact every_mono (every_httpMgmtPrepare orderly deadline buf) (fun _ _ orderly => orderly) fun _ => spared_of_unbroken
  | writable =>
    have written : Calms (handle .writable) := inferInstanceAs (Calms (callbackWriteable >>= _))
    exact calms
  | addPollFd fd events =>
    have added : Calms (handle (.addPollFd fd events)) := inferInstanceAs (Calms (mgmtAddFd fd events >>= _))
    exact calms
  | delPollFd fd =>
    have deleted : Calms (handle (.delPollFd fd)) := inferInstanceAs (Calms (mgmtDelFd fd >>= _))
    exact calms
  | changeModePollFd fd events =>
    have changed : Calms (handle (.changeModePollFd fd events)) := by
      unfold handle
      infer_instance
    exact calms
  | poll revents => exact spare (orderly.calm (calm_of_same rfl))
  | service slot =>
    have served {t : HttpMgmt} (orderly : Orderly P t) : Every (do
        let _ ← httpMgmtService slot : DevM Unit) (fun _ u => Orderly P u) (spared t) t := by
      rw [every_bind]
      exact every_httpMgmtService orderly slot
    rw [handle, every_bind]
    change Every (do
      when ((s.pollfds slot).revents ≠ 0) do modify fun d => { d with lastAliveTime := d.now }
      let _ ← httpMgmtService slot : DevM Unit) _ _ s
    rw [every_bind, every_when]
    exact ⟨fun _ => served (orderly.calm (calm_of_same rfl)), fun _ => served orderly⟩
  | run => exact spare (every_httpMgmtRun orderly)
  | runTimeout => exact spare (every_post (every_httpMgmtRunTimeout orderly) fun _ _ done => done.1)
  | reconnect =>
    have initialised : Calms httpMgmtParamInit := along_modify fun _ => calm_of_same rfl
    rw [handle, every_bind]
    refine every_mono (every_httpMgmtReleaseAll orderly) (fun _ t orderly => ?_) fun _ => spared_of_unbroken
    exact every_mono (initialised.along t) (fun _ _ => orderly.calm) fun _ => spared_of_unbroken

end

/-! The runs of the manager. -/

/-- A call of a function of the scheduler, or something else that happens to the device. -/
inductive Call where
  | create (timeout : Int)
  | run
  | service (slot : Nat)
  | runTimeout
  | releaseAll
  | other (event : Event)

def code : Call → DevM Unit
  | .create timeout => do
    let _ ← httpContextCreate timeout
  | .run => httpMgmtRun
  | .service slot => do
    let _ ← httpMgmtService slot
  | .runTimeout => httpMgmtRunTimeout
  | .releaseAll => httpMgmtReleaseAll
  | .other event => handle event

/-- A call at a time, with the answers of the system and of the lists of buffers. -/
structure Occurrence where
  call : Call
  now : Int
  replies : List Reply
  lists : List (List BufId)

def outcome (d : HttpMgmt) (o : Occurrence) : Except Fault (Unit × List (List BufId) × HttpMgmt) :=
  (code o.call).answered o.lists { d with now := o.now, replies := o.replies }

def step (d : HttpMgmt) (o : Occurrence) : Option HttpMgmt :=
  match outcome d o with
  | .ok (_, _, t) => some t
  | .error _ => none

def Begins (d : HttpMgmt) : Prop :=
  ∃ username localHost localPort maxFds servFd now, d = initData username localHost localPort maxFds servFd now

theorem orderly_of_begins {P : Int → Prop} {d : HttpMgmt} (begins : Begins d) : Orderly P d := by
  obtain ⟨username, localHost, localPort, maxFds, servFd, now, rfl⟩ := begins
  refine ⟨⟨fun c => ⟨nofun, nofun⟩, List.nodup_nil, fun c => ⟨nofun, nofun⟩, rfl, nofun, fun c => ⟨nofun, nofun⟩,
    List.nodup_nil, .nil, nofun, fun c _ => rfl, ?_, fun c _ => .inl ?_, fun fd c found => ?_⟩, rfl⟩
  · simp only [initData, List.nodup_reverse]
    exact List.nodup_finRange _
  · simp only [initData, List.mem_reverse]
    exact List.mem_finRange c
  · change (if fd = servFd then some Owner.server else none) = _ at found
    split at found <;> cases found

theorem Orderly.tick {P : Int → Prop} {d : HttpMgmt} (orderly : Orderly P d) (now : Int) (replies : List Reply) :
    Orderly P { d with now, replies } := by
  obtain ⟨sound, running⟩ := orderly
  exact ⟨⟨sound.ready, sound.once, sound.prio, sound.count, sound.connecting, sound.timed, sound.timedOnce, sound.sorted,
    sound.deadlines, sound.free, sound.freeOnce, sound.idle, sound.found⟩, running⟩

/-- The deadline of a context that a call may create has a property. -/
def Timely (P : Int → Prop) (now : Int) : Call → Prop
  | .create timeout => P (now + timeout)
  | _ => P (now + 10)

/-- A call leaves the lists of contexts in order. -/
theorem every_code {P : Int → Prop} {s : HttpMgmt} {call : Call} (orderly : Orderly P s) (timely : Timely P s.now call) :
    (code call).Every (fun _ t => Orderly P t) (spared s) s := by
  have spare {code : DevM Unit} (every : code.Every (fun _ t => Orderly P t) unbroken s) :
      code.Every (fun _ t => Orderly P t) (spared s) s := every_mono every (fun _ _ h => h) fun _ => spared_of_unbroken
  cases call with
  | create timeout =>
    rw [code, every_bind]
    exact every_mono (every_httpContextCreate orderly timely) (fun _ _ orderly => orderly) fun _ => spared_of_unbroken
  | run => exact spare (every_httpMgmtRun orderly)
  | service slot =>
    rw [code, every_bind]
    exact every_httpMgmtService orderly slot
  | runTimeout => exact spare (every_post (every_httpMgmtRunTimeout orderly) fun _ _ done => done.1)
  | releaseAll => exact spare (every_httpMgmtReleaseAll orderly)
  | other event => exact every_handle orderly timely event

theorem step_of_every {post : Unit → HttpMgmt → Prop} {err : Fault → Prop} {s t : HttpMgmt} {o : Occurrence}
    (every : (code o.call).Every post err { s with now := o.now, replies := o.replies }) (moved : step s o = some t) :
    post () t := by
  rw [step, outcome] at moved
  split at moved
  next rest u ran =>
    cases moved
    exact (every_answered every o.lists).1 _ _ _ ran
  next => cases moved

theorem orderly_step {P : Int → Prop} {s t : HttpMgmt} {o : Occurrence} (orderly : Orderly P s)
    (timely : Timely P o.now o.call) (moved : step s o = some t) : Orderly P t :=
  step_of_every (every_code (orderly.tick o.now o.replies) timely) moved

theorem timely_of_always (now : Int) (call : Call) : Timely (fun _ => True) now call := by
  cases call <;> trivial

theorem orderly_of_reached {d : HttpMgmt} (reached : Reach step (fun _ _ => True) Begins d) :
    Orderly (fun _ => True) d :=
  reached.invariant (fun _ => orderly_of_begins) fun _ o _ orderly _ => orderly_step orderly (timely_of_always o.now o.call)

/-- The invariant of the scheduler between two calls. -/
structure Scheduled (d : HttpMgmt) : Prop where
  ready : ∀ c, asking c d.acts = true → ((d.ctxs c).status = .ready ↔
    0 ≤ (d.ctxs c).prio ∧ (d.ctxs c).prio < 2 ∧ c ∈ d.listReady (d.ctxs c).prio)
  once : ∀ c, asking c d.acts = true → (d.listReady 0 ++ d.listReady 1).count c ≤ 1
  timed : ∀ c, asking c d.acts = true → d.listTimeout.count c = 1
  released : ∀ c, asking c d.acts = false → c ∉ d.listReady 0 ∧ c ∉ d.listReady 1 ∧ c ∉ d.listTimeout
  count : d.readyLen = (d.listReady 0).length + (d.listReady 1).length

theorem scheduled_of_orderly {P : Int → Prop} {d : HttpMgmt} (orderly : Orderly P d) : Scheduled d := by
  obtain ⟨sound, running⟩ := orderly
  have all : linked d = d.listReady 0 ++ d.listReady 1 := by
    rw [linked, running, List.nil_append]
  have once := all ▸ sound.once
  constructor
  · intro c asks
    have ready : (d.ctxs c).status = .ready ↔ c ∈ d.listReady 0 ∨ c ∈ d.listReady 1 := by
      rw [← List.mem_append, ← all, sound.ready]
      exact ⟨fun ready => ⟨asks, ready, by simp⟩, fun member => member.2.1⟩
    rw [ready]
    constructor
    · rintro (first | second)
      · rw [(sound.prio c).1 first]
        exact ⟨le_refl _, by decide, first⟩
      · rw [(sound.prio c).2 second]
        exact ⟨by decide, by decide, second⟩
    · rintro ⟨least, most, member⟩
      have prio : (d.ctxs c).prio = 0 ∨ (d.ctxs c).prio = 1 := by omega
      rcases prio with zero | one
      · exact .inl (zero ▸ member)
      · exact .inr (one ▸ member)
  · exact fun c _ => List.nodup_iff_count_le_one.mp once c
  · exact fun c asks => List.count_eq_one_of_mem sound.timedOnce (sound.listed asks)
  · intro c idle
    obtain ⟨away, untimed⟩ := sound.away idle
    obtain ⟨_, first, second⟩ := not_linked.mp away
    exact ⟨first, second, untimed⟩
  · rw [sound.count, all, List.length_append, Nat.cast_add]

/-- Between any two calls the lists of contexts are in order, whatever the sockets answer and
the lists of buffers hold, and where no context has the descriptor 0 no call misuses a list. -/
theorem scheduler_invariant {d : HttpMgmt} (reached : Reach step (fun _ _ => True) Begins d) :
    Scheduled d ∧ ((∀ c, .socket (.http c) 0 ∉ d.acts) → ∀ o, outcome d o ≠ .error .list) := by
  have orderly := orderly_of_reached reached
  refine ⟨scheduled_of_orderly orderly, fun unused o stopped => ?_⟩
  have every := every_code (orderly.tick o.now o.replies) (timely_of_always o.now o.call)
  obtain ⟨c, given⟩ := (every_answered every o.lists).2 _ stopped rfl
  exact unused c given

/-- What happens to the device is one of the things that may happen. -/
theorem step_of_step {w v : DevState} {o : Occasion} (moved : Manager.step w o = some v) :
    ∃ lists, step w.data ⟨.other o.event, o.now, o.replies, lists⟩ = some v.data := by
  rw [Manager.step] at moved
  split at moved
  next u ran =>
    cases moved
    obtain ⟨lists, ran⟩ := answered_of_run ran
    refine ⟨lists, ?_⟩
    rw [step, outcome, code]
    dsimp only at ran ⊢
    rw [ran]
  next => cases moved

theorem reached_of_reached {w : DevState} (reached : Reach Manager.step (fun _ _ => True) Starts w) :
    Reach step (fun _ _ => True) Begins w.data := by
  induction reached with
  | start starts =>
    obtain ⟨username, localHost, localPort, maxFds, servFd, now, rfl⟩ := starts
    exact .start ⟨username, localHost, localPort, maxFds, servFd, now, rfl⟩
  | next _ _ moved ih =>
    obtain ⟨lists, moved⟩ := step_of_step moved
    exact .next ih trivial moved

/-- A request whose context connects. -/
def connectingRequest : List Occasion :=
  [⟨.receive Answering.requestFrame, 1, [.value 5]⟩, ⟨.run, 1, [.value 0x0a000001, .value 0]⟩]

def isConnecting (w : DevState) : Bool :=
  decide (asking Answering.firstCtx w.data.acts = true ∧ Answering.firstCtx ∈ w.data.listReady 0)

theorem connectingRequest_ready :
    (Library.Run.run Manager.step Reassembly.device connectingRequest).map isConnecting = some true := by
  decide +kernel

theorem scheduler_invariant_connecting : ∃ d, asking Answering.firstCtx d.acts = true ∧
    Answering.firstCtx ∈ d.listReady 0 ∧ Scheduled d := by
  obtain ⟨w, ran, passes⟩ := Option.map_eq_some_iff.mp connectingRequest_ready
  obtain ⟨asks, member⟩ := of_decide_eq_true passes
  exact ⟨w.data, asks, member, (scheduler_invariant (reached_of_reached (reach_of_free_run Reassembly.device_starts ran))).1⟩

end WebTunnel.Device.Calling
