import WebTunnel.Device.Scheduling

/-! The lists of the scheduler of HTTP contexts: which contexts are in the ready lists and in the
list of deadlines while contexts leave, come back, are released and are given requests. -/

namespace WebTunnel.Device.Scheduler
set_option synthInstance.maxSize 10000
open Library.Bytes Library.Lists Library.Routines Library.Routines.Routine Library.Run Function Device.Types Buffers
open Parsing Http Forward Tunnel Manager Responses Scheduling

/-- The context is due earlier, or at the same time and was given its request earlier. -/
def Earlier (d : HttpMgmt) (a b : CtxId) : Prop :=
  (d.ctxs a).timeout < (d.ctxs b).timeout ∨
    (d.ctxs a).timeout = (d.ctxs b).timeout ∧ openedAt a d.acts < openedAt b d.acts

/-- The lists of contexts are in order, and all deadlines have a property. A context that is
busy is being run or released and is in none of the ready lists. -/
structure Sound (P : Int → Prop) (busy : Option CtxId) (d : HttpMgmt) : Prop where
  ready : ∀ c, c ∈ linked d ↔ asking c d.acts = true ∧ (d.ctxs c).status = .ready ∧ busy ≠ some c
  once : (linked d).Nodup
  prio : ∀ c, (c ∈ d.listReady 0 → (d.ctxs c).prio = 0) ∧ (c ∈ d.listReady 1 → (d.ctxs c).prio = 1)
  count : d.readyLen = (linked d).length
  connecting : ∀ c, asking c d.acts = true → (d.ctxs c).funcRun = .connect → (d.ctxs c).status = .ready
  timed : ∀ c, c ∈ d.listTimeout ↔ asking c d.acts = true
  timedOnce : d.listTimeout.Nodup
  sorted : d.listTimeout.Pairwise (Earlier d)
  deadlines : ∀ c ∈ d.listTimeout, P (d.ctxs c).timeout
  free : ∀ c ∈ d.ctxCaches, asking c d.acts = false
  freeOnce : d.ctxCaches.Nodup
  idle : ∀ c, asking c d.acts = false → c ∈ d.ctxCaches ∨ (d.ctxs c).status = .ready
  found : ∀ fd c, d.httpLookup fd = some (.http c) →
    0 ≤ fd ∧ .socket (.http c) fd ∈ d.acts ∧ (fd = 0 ∨ asking c d.acts = true ∧ (d.ctxs c).sockfd = fd)

section
variable {P : Int → Prop} {busy : Option CtxId} {c : CtxId} {s t d : HttpMgmt}

/-- What is not about the scheduling keeps it in order. -/
theorem Sound.calm (sound : Sound P busy s) (calm : Calm s t) : Sound P busy t := by
  have ready : t.listReady = s.listReady := congrArg Prod.fst calm.lists
  have readyLen : t.readyLen = s.readyLen := congrArg (·.2.2.1) calm.lists
  constructor
  · intro c
    rw [calm.linked, calm.asking, calm.status]
    exact sound.ready c
  · rw [calm.linked]
    exact sound.once
  · intro c
    rw [ready, calm.prio]
    exact sound.prio c
  · rw [readyLen, calm.linked]
    exact sound.count
  · intro c asks connect
    rw [calm.status]
    exact sound.connecting c (calm.asking c ▸ asks) (calm.connecting c connect)
  · intro c
    rw [calm.listTimeout, calm.asking]
    exact sound.timed c
  · rw [calm.listTimeout]
    exact sound.timedOnce
  · rw [calm.listTimeout]
    exact sound.sorted.imp fun earlier => by rwa [Earlier, calm.timeout, calm.timeout, calm.openedAt, calm.openedAt]
  · intro c member
    rw [calm.timeout]
    exact sound.deadlines c (calm.listTimeout ▸ member)
  · intro c member
    rw [calm.asking]
    exact sound.free c (calm.ctxCaches ▸ member)
  · rw [calm.ctxCaches]
    exact sound.freeOnce
  · intro c idle
    rw [calm.ctxCaches, calm.status]
    exact sound.idle c (calm.asking c ▸ idle)
  · intro fd c found
    rw [calm.asking, calm.sockfd]
    obtain ⟨positive, given, owner⟩ := sound.found fd c (calm.lookup fd c found)
    exact ⟨positive, calm.acts _ given, owner⟩

theorem Sound.listed (sound : Sound P busy s) (asks : asking c s.acts = true) : c ∈ s.listTimeout := (sound.timed c).mpr asks

/-- A context that is not waiting for anything is in none of the lists. -/
theorem Sound.away (sound : Sound P busy s) (idle : asking c s.acts = false) : c ∉ linked s ∧ c ∉ s.listTimeout := by
  refine ⟨fun member => ?_, fun member => ?_⟩
  · cases idle.symm.trans ((sound.ready c).mp member).1
  · cases idle.symm.trans ((sound.timed c).mp member)

theorem Sound.not_free (sound : Sound P busy s) (asks : asking c s.acts = true) : c ∉ s.ctxCaches := fun member => by
  cases (sound.free c member).symm.trans asks

theorem not_linked : c ∉ linked d ↔ c ∉ d.running ∧ c ∉ d.listReady 0 ∧ c ∉ d.listReady 1 := by
  simp only [linked, List.mem_append, not_or]

/-! Leaving the ready lists and coming back. -/

/-- A context that is not ready is in none of the ready lists. -/
theorem Sound.busy_of_unready (sound : Sound P none s) (unready : (s.ctxs c).status ≠ .ready) : Sound P (some c) s :=
  { sound with
    ready := fun c' => by
      rw [sound.ready]
      refine and_congr_right fun _ => ⟨fun ⟨ready, _⟩ => ⟨ready, fun same => ?_⟩, fun ⟨ready, _⟩ => ⟨ready, by simp⟩⟩
      cases same
      exact unready ready }

/-- The state without the context in its ready lists. -/
def unlinked (c : CtxId) (d : HttpMgmt) : HttpMgmt :=
  { d with
    running := d.running.erase c
    listReady := fun prio => (d.listReady prio).erase c
    readyLen := d.readyLen - 1 }

theorem linked_unlinked (once : (linked d).Nodup) : linked (unlinked c d) = (linked d).erase c := by
  obtain ⟨_, others, apart⟩ := List.nodup_append.mp once
  obtain ⟨_, _, apart'⟩ := List.nodup_append.mp others
  unfold linked unlinked
  dsimp only
  by_cases running : c ∈ d.running
  · have elsewhere := fun member => apart c running c member rfl
    rw [List.erase_append_left _ running, List.erase_of_not_mem fun member => elsewhere (List.mem_append_left _ member),
      List.erase_of_not_mem fun member => elsewhere (List.mem_append_right _ member)]
  · rw [List.erase_append_right _ running, List.erase_of_not_mem running]
    by_cases first : c ∈ d.listReady 0
    · rw [List.erase_append_left _ first, List.erase_of_not_mem fun member => apart' c first c member rfl]
    · rw [List.erase_append_right _ first, List.erase_of_not_mem first]

theorem Sound.unlinked (sound : Sound P none s) (asks : asking c s.acts = true) (ready : (s.ctxs c).status = .ready) :
    Sound P (some c) (unlinked c s) := by
  have member := (sound.ready c).mpr ⟨asks, ready, by simp⟩
  constructor
  case ready =>
    intro c'
    rw [linked_unlinked sound.once, sound.once.mem_erase_iff, sound.ready]
    refine ⟨fun ⟨apart, asks, ready, _⟩ => ⟨asks, ready, fun same => apart (Option.some.inj same).symm⟩, ?_⟩
    exact fun ⟨asks, ready, apart⟩ => ⟨fun same => apart (congrArg some same.symm), asks, ready, by simp⟩
  case once =>
    rw [linked_unlinked sound.once]
    exact sound.once.erase c
  case prio =>
    exact fun c' => ⟨fun member => (sound.prio c').1 (List.mem_of_mem_erase member),
      fun member => (sound.prio c').2 (List.mem_of_mem_erase member)⟩
  case count =>
    rw [linked_unlinked sound.once, List.length_erase_of_mem member]
    have positive := List.length_pos_of_mem member
    have count := sound.count
    change s.readyLen - 1 = _
    omega
  case connecting => exact sound.connecting
  case timed => exact sound.timed
  case timedOnce => exact sound.timedOnce
  case sorted => exact sound.sorted
  case deadlines => exact sound.deadlines
  case free => exact sound.free
  case freeOnce => exact sound.freeOnce
  case idle => exact sound.idle
  case found => exact sound.found

/-- A context leaves the ready lists. -/
theorem every_leave (sound : Sound P none s) (asks : asking c s.acts = true) :
    Every (when ((s.ctxs c).status = .ready) (unready c) : DevM Unit) (fun _ t => Sound P (some c) t ∧
      (t.running = s.running.erase c ∧ t.ctxs = s.ctxs ∧ t.acts = s.acts ∧ t.now = s.now ∧ t.listTimeout = s.listTimeout))
      unbroken s := by
  rw [every_when]
  refine ⟨fun ready => ?_, fun unready => ⟨sound.busy_of_unready unready, ?_, rfl, rfl, rfl, rfl⟩⟩
  · rw [unready, every_bind, every_data, every_bind, every_demand]
    refine ⟨fun _ => ⟨sound.unlinked asks ready, rfl, rfl, rfl, rfl, rfl⟩, fun away => absurd ?_ away⟩
    have member := (sound.ready c).mpr ⟨asks, ready, by simp⟩
    simpa only [linked, List.mem_append] using member
  · refine (List.erase_of_not_mem fun member => unready ?_).symm
    exact ((sound.ready c).mp (List.mem_append_left _ member)).2.1

/-- The priority under which a context becomes ready. -/
def calling (prio : Int) : Int := if prio < 0 ∨ 2 ≤ prio then 1 else prio

theorem calling_cases (prio : Int) : calling prio = 0 ∨ calling prio = 1 := by
  unfold calling
  split <;> omega

/-- The state with the context in the ready list of its priority. -/
def relinked (c : CtxId) (d : HttpMgmt) : HttpMgmt :=
  let prio := calling (d.ctxs c).prio
  { d with
    ctxs := update d.ctxs c { d.ctxs c with prio }
    listReady := update d.listReady prio (c :: d.listReady prio)
    readyLen := d.readyLen + 1 }

theorem every_insertReadyPrio (away : c ∉ linked s) (used : c ∉ s.ctxCaches) :
    Every (insertReadyPrio c) (fun _ t => t = relinked c s) unbroken s := by
  obtain ⟨running, first, second⟩ := not_linked.mp away
  rw [insertReadyPrio, every_bind, every_getCtx]
  dsimp only
  rw [every_bind, every_setCtx, every_bind, every_data, every_bind, every_demand]
  exact ⟨fun _ => rfl, fun linked => absurd ⟨running, first, second, used⟩ linked⟩

theorem linked_relinked : (linked (relinked c d)).Perm (c :: linked d) := by
  unfold linked relinked
  dsimp only
  rcases calling_cases (d.ctxs c).prio with first | second
  · rw [first, update_self, update_of_ne (by decide : (1 : Int) ≠ 0)]
    exact List.perm_middle
  · rw [second, update_self, update_of_ne (by decide : (0 : Int) ≠ 1)]
    exact (List.perm_middle.append_left _).trans List.perm_middle

theorem mem_linked_relinked {c' : CtxId} : c' ∈ linked (relinked c d) ↔ c' = c ∨ c' ∈ linked d := by
  rw [linked_relinked.mem_iff, List.mem_cons]

theorem once_relinked (once : (linked d).Nodup) (away : c ∉ linked d) : (linked (relinked c d)).Nodup :=
  linked_relinked.nodup_iff.mpr (List.nodup_cons.mpr ⟨away, once⟩)

theorem context_relinked (c' : CtxId) :
    (((relinked c d).ctxs c').status, ((relinked c d).ctxs c').timeout, ((relinked c d).ctxs c').sockfd,
      ((relinked c d).ctxs c').funcRun) =
      ((d.ctxs c').status, (d.ctxs c').timeout, (d.ctxs c').sockfd, (d.ctxs c').funcRun) := by
  unfold relinked
  by_cases same : c' = c
  · subst same
    dsimp only
    rw [update_self]
  · dsimp only
    rw [update_of_ne same]

theorem prio_relinked (away : c ∉ linked d)
    (prio : ∀ c, (c ∈ d.listReady 0 → (d.ctxs c).prio = 0) ∧ (c ∈ d.listReady 1 → (d.ctxs c).prio = 1)) (c' : CtxId) :
    (c' ∈ (relinked c d).listReady 0 → ((relinked c d).ctxs c').prio = 0) ∧
      (c' ∈ (relinked c d).listReady 1 → ((relinked c d).ctxs c').prio = 1) := by
  obtain ⟨_, first, second⟩ := not_linked.mp away
  unfold relinked
  dsimp only
  by_cases same : c' = c
  · subst same
    rw [update_self]
    rcases calling_cases (d.ctxs c').prio with zero | one
    · rw [zero, update_of_ne (by decide : (1 : Int) ≠ 0)]
      exact ⟨fun _ => rfl, fun member => absurd member second⟩
    · rw [one, update_of_ne (by decide : (0 : Int) ≠ 1)]
      exact ⟨fun member => absurd member first, fun _ => rfl⟩
  · rw [update_of_ne same]
    rcases calling_cases (d.ctxs c).prio with zero | one
    · rw [zero, update_self, update_of_ne (by decide : (1 : Int) ≠ 0)]
      exact ⟨fun member => (prio c').1 ((List.mem_cons.mp member).resolve_left same), (prio c').2⟩
    · rw [one, update_self, update_of_ne (by decide : (0 : Int) ≠ 1)]
      exact ⟨(prio c').1, fun member => (prio c').2 ((List.mem_cons.mp member).resolve_left same)⟩

theorem count_relinked (count : d.readyLen = (linked d).length) :
    (relinked c d).readyLen = (linked (relinked c d)).length := by
  rw [linked_relinked.length_eq, List.length_cons, Nat.cast_add, Nat.cast_one, ← count]
  rfl

/-- A context that goes on becomes ready again. -/
theorem Sound.relinked (sound : Sound P (some c) s) (asks : asking c s.acts = true) (ready : (s.ctxs c).status = .ready) :
    Sound P none (relinked c s) := by
  have away : c ∉ linked s := fun member => ((sound.ready c).mp member).2.2 rfl
  have context (c' : CtxId) := context_relinked (c := c) (d := s) c'
  simp only [Prod.mk.injEq] at context
  constructor
  case ready =>
    intro c'
    rw [mem_linked_relinked, sound.ready, (context c').1]
    constructor
    · rintro (rfl | ⟨asks, ready, _⟩)
      · exact ⟨asks, ready, by simp⟩
      · exact ⟨asks, ready, by simp⟩
    · rintro ⟨asks, ready, _⟩
      by_cases same : c' = c
      · exact .inl same
      · exact .inr ⟨asks, ready, fun same' => same (Option.some.inj same').symm⟩
  case once => exact once_relinked sound.once away
  case prio => exact prio_relinked away sound.prio
  case count => exact count_relinked sound.count
  case connecting =>
    intro c' asks
    rw [(context c').1, (context c').2.2.2]
    exact sound.connecting c' asks
  case timed => exact sound.timed
  case timedOnce => exact sound.timedOnce
  case sorted => exact sound.sorted.imp fun earlier => by rwa [Earlier, (context _).2.1, (context _).2.1]
  case deadlines =>
    intro c' member
    rw [(context c').2.1]
    exact sound.deadlines c' member
  case free => exact sound.free
  case freeOnce => exact sound.freeOnce
  case idle =>
    intro c' idle
    rw [(context c').1]
    exact sound.idle c' idle
  case found =>
    intro fd c' found
    rw [(context c').2.2.1]
    exact sound.found fd c' found

/-- A context that waits is pending. -/
theorem Sound.pending (sound : Sound P (some c) s) (running : (s.ctxs c).funcRun ≠ .connect)
    (used : asking c s.acts = false → c ∈ s.ctxCaches) : Sound P none (s.setCtx c { s.ctxs c with status := .pending }) := by
  constructor
  case ready =>
    intro c'
    change c' ∈ linked s ↔ _
    rw [sound.ready]
    by_cases same : c' = c
    · subst same
      rw [setCtx_self]
      exact ⟨fun ⟨_, _, apart⟩ => absurd rfl apart, fun ⟨_, ready, _⟩ => nomatch ready⟩
    · rw [setCtx_other same]
      refine and_congr_right fun _ => and_congr_right fun _ => ⟨fun _ => by simp, fun _ same' => ?_⟩
      exact same (Option.some.inj same').symm
  case once => exact sound.once
  case prio =>
    intro c'
    by_cases same : c' = c
    · subst same
      rw [setCtx_self]
      exact sound.prio c'
    · rw [setCtx_other same]
      exact sound.prio c'
  case count => exact sound.count
  case connecting =>
    intro c' asks
    by_cases same : c' = c
    · subst same
      rw [setCtx_self]
      exact fun connect => absurd connect running
    · rw [setCtx_other same]
      exact sound.connecting c' asks
  case timed => exact sound.timed
  case timedOnce => exact sound.timedOnce
  case sorted =>
    have timeout (c' : CtxId) : ((s.setCtx c { s.ctxs c with status := .pending }).ctxs c').timeout = (s.ctxs c').timeout := by
      by_cases same : c' = c
      · subst same
        rw [setCtx_self]
      · rw [setCtx_other same]
    exact sound.sorted.imp fun earlier => by rwa [Earlier, timeout, timeout]
  case deadlines =>
    intro c' member
    by_cases same : c' = c
    · subst same
      rw [setCtx_self]
      exact sound.deadlines c' member
    · rw [setCtx_other same]
      exact sound.deadlines c' member
  case free => exact sound.free
  case freeOnce => exact sound.freeOnce
  case idle =>
    intro c' idle
    by_cases same : c' = c
    · subst same
      exact .inl (used idle)
    · rw [setCtx_other same]
      exact sound.idle c' idle
  case found =>
    intro fd c' found
    obtain ⟨positive, given, owner⟩ := sound.found fd c' found
    refine ⟨positive, given, owner.imp_right fun ⟨asks, sockfd⟩ => ⟨asks, ?_⟩⟩
    by_cases same : c' = c
    · subst same
      rwa [setCtx_self]
    · rwa [setCtx_other same]

/-! The release of a context. -/

/-- A context is being released: nothing is different for the others. -/
structure Leaving (c : CtxId) (s t : HttpMgmt) : Prop where
  lists : (t.listReady, t.running, t.readyLen, t.listTimeout, t.ctxCaches) =
    (s.listReady, s.running, s.readyLen, s.listTimeout, s.ctxCaches)
  now : t.now = s.now
  context : ∀ c' ≠ c, ((t.ctxs c').status, (t.ctxs c').prio, (t.ctxs c').timeout, (t.ctxs c').sockfd) =
    ((s.ctxs c').status, (s.ctxs c').prio, (s.ctxs c').timeout, (s.ctxs c').sockfd)
  connecting : ∀ c' ≠ c, (t.ctxs c').funcRun = .connect → (s.ctxs c').funcRun = .connect
  ended : asking c t.acts = false
  asking : ∀ c' ≠ c, asking c' t.acts = asking c' s.acts
  acts : ∀ act ∈ s.acts, act ∈ t.acts
  lookup : ∀ fd c', t.httpLookup fd = some (.http c') → s.httpLookup fd = some (.http c')
  openedAt : ∀ c', openedAt c' t.acts = openedAt c' s.acts

theorem Leaving.calm {u : HttpMgmt} (leaving : Leaving c s t) (calm : Calm t u) : Leaving c s u where
  lists := calm.lists.trans leaving.lists
  now := calm.now.trans leaving.now
  context c' apart := (calm.context c').trans (leaving.context c' apart)
  connecting c' apart same := leaving.connecting c' apart (calm.connecting c' same)
  ended := (calm.asking c).trans leaving.ended
  asking c' apart := (calm.asking c').trans (leaving.asking c' apart)
  acts act member := calm.acts act (leaving.acts act member)
  lookup fd c' found := leaving.lookup fd c' (calm.lookup fd c' found)
  openedAt c' := (calm.openedAt c').trans (leaving.openedAt c')

theorem Leaving.setCtx (leaving : Leaving c s t) (ctx : HttpContext) : Leaving c s (t.setCtx c ctx) :=
  { leaving with
    context := fun c' apart => by
      rw [setCtx_other apart]
      exact leaving.context c' apart
    connecting := fun c' apart => by
      rw [setCtx_other apart]
      exact leaving.connecting c' apart }

theorem leaving_note (c : CtxId) (s : HttpMgmt) : Leaving c s (s.note (.release (.http c))) where
  lists := rfl
  now := rfl
  context _ _ := rfl
  connecting _ _ := id
  ended := if_pos rfl
  asking _ apart := if_neg fun same => apart (Owner.http.inj same).symm
  acts _ := List.mem_cons_of_mem _
  lookup _ _ := id
  openedAt _ := openedAt_cons_of_other rfl _

/-- The state without the context in the list of deadlines, and with it in the pool. -/
def freed (c : CtxId) (d : HttpMgmt) : HttpMgmt :=
  { d with
    listTimeout := d.listTimeout.erase c
    ctxCaches := c :: d.ctxCaches
    totalProcess := d.totalProcess + 1 }

theorem Sound.freed (sound : Sound P (some c) s) (asks : asking c s.acts = true) (leaving : Leaving c s t)
    (cleared : ∀ fd, t.httpLookup fd = some (.http c) → fd = 0) : Sound P none (freed c t) := by
  have lists := leaving.lists
  simp only [Prod.mk.injEq] at lists
  obtain ⟨ready, running, readyLen, listTimeout, ctxCaches⟩ := lists
  have context := leaving.context
  simp only [Prod.mk.injEq] at context
  have same : linked (Scheduler.freed c t) = linked s := by
    unfold linked Scheduler.freed
    dsimp only
    rw [ready, running]
  have apart {c' : CtxId} (member : c' ∈ s.listTimeout.erase c) : c' ≠ c := by
    rintro rfl
    exact absurd member sound.timedOnce.not_mem_erase
  constructor
  case ready =>
    intro c'
    rw [same, sound.ready]
    change _ ↔ Responses.asking c' t.acts = true ∧ (t.ctxs c').status = .ready ∧ _
    by_cases other : c' = c
    · subst other
      rw [leaving.ended]
      exact ⟨fun member => absurd rfl member.2.2, fun member => nomatch member.1⟩
    · rw [leaving.asking c' other, (context c' other).1]
      refine and_congr_right fun _ => and_congr_right fun _ => ⟨fun _ => by simp, fun _ same => ?_⟩
      exact other (Option.some.inj same).symm
  case once =>
    rw [same]
    exact sound.once
  case prio =>
    intro c'
    change (c' ∈ t.listReady 0 → (t.ctxs c').prio = 0) ∧ (c' ∈ t.listReady 1 → (t.ctxs c').prio = 1)
    by_cases other : c' = c
    · subst other
      have away := not_linked.mp fun member => ((sound.ready c').mp member).2.2 rfl
      rw [ready]
      exact ⟨fun member => absurd member away.2.1, fun member => absurd member away.2.2⟩
    · rw [ready, (context c' other).2.1]
      exact sound.prio c'
  case count =>
    rw [same]
    exact readyLen.trans sound.count
  case connecting =>
    intro c' asks connect
    have other : c' ≠ c := by
      rintro rfl
      cases leaving.ended.symm.trans asks
    change (t.ctxs c').status = _
    rw [(context c' other).1]
    exact sound.connecting c' (leaving.asking c' other ▸ asks) (leaving.connecting c' other connect)
  case timed =>
    intro c'
    change c' ∈ t.listTimeout.erase c ↔ Responses.asking c' t.acts = true
    rw [listTimeout, sound.timedOnce.mem_erase_iff, sound.timed]
    by_cases other : c' = c
    · subst other
      rw [leaving.ended]
      exact ⟨fun member => absurd rfl member.1, by simp⟩
    · rw [leaving.asking c' other]
      exact ⟨And.right, fun asks => ⟨other, asks⟩⟩
  case timedOnce =>
    change (t.listTimeout.erase c).Nodup
    rw [listTimeout]
    exact sound.timedOnce.erase c
  case sorted =>
    change (t.listTimeout.erase c).Pairwise _
    rw [listTimeout]
    refine (sound.sorted.sublist List.erase_sublist).imp_of_mem fun {a b} first second earlier => ?_
    change Earlier t a b
    rwa [Earlier, (context a (apart first)).2.2.1, (context b (apart second)).2.2.1, leaving.openedAt, leaving.openedAt]
  case deadlines =>
    intro c' member
    change c' ∈ t.listTimeout.erase c at member
    rw [listTimeout] at member
    change P (t.ctxs c').timeout
    rw [(context c' (apart member)).2.2.1]
    exact sound.deadlines c' (List.mem_of_mem_erase member)
  case free =>
    intro c' member
    change Responses.asking c' t.acts = false
    by_cases other : c' = c
    · subst other
      exact leaving.ended
    · rw [leaving.asking c' other]
      exact sound.free c' (ctxCaches ▸ (List.mem_cons.mp member).resolve_left other)
  case freeOnce =>
    refine List.nodup_cons.mpr ⟨fun member => ?_, ctxCaches ▸ sound.freeOnce⟩
    exact sound.not_free asks (ctxCaches ▸ member)
  case idle =>
    intro c' idle
    change c' ∈ c :: t.ctxCaches ∨ (t.ctxs c').status = .ready
    by_cases other : c' = c
    · exact .inl (List.mem_cons.mpr (.inl other))
    · rw [ctxCaches, (context c' other).1]
      exact (sound.idle c' (leaving.asking c' other ▸ idle)).imp_left (List.mem_cons_of_mem c)
  case found =>
    intro fd c' found
    obtain ⟨positive, given, owner⟩ := sound.found fd c' (leaving.lookup fd c' found)
    refine ⟨positive, leaving.acts _ given, ?_⟩
    by_cases other : c' = c
    · subst other
      exact .inl (cleared fd found)
    · change fd = 0 ∨ Responses.asking c' t.acts = true ∧ (t.ctxs c').sockfd = fd
      rw [leaving.asking c' other, (context c' other).2.2.2]
      exact owner

/-- A descriptor is found to belong to nothing any more. -/
theorem every_dropFd (fd : Int) :
    (dropFd fd).Every (fun _ t => Calm s t ∧ t.httpLookup fd = none) unbroken s := by
  unfold dropFd
  refine every_still_then (.refl s) fun _ u still => ?_
  have cleared := still_setLookup fd (o := none) (by simp)
  exact ⟨still.toCalm.trans (cleared.along u).toCalm, update_self ..⟩

/-- What is left of a release when the descriptor is gone. -/
theorem every_freed {curr curr' : Option BufId} {ctx : HttpContext} (sound : Sound P (some c) s)
    (asks : asking c s.acts = true) (leaving : Leaving c s t)
    (cleared : ∀ fd, t.httpLookup fd = some (.http c) → fd = 0) :
    Every (do
      when curr.isSome do
        freeBuf curr
        setCtx c ctx
      freeBuf curr'
      listSpliceInit (.writeTodo c) .caches
      listSpliceInit (.readTodo c) .caches
      let d ← data
      demand (c ∈ d.listTimeout) .list
      modify fun d => { d with listTimeout := d.listTimeout.erase c }
      freeContext c
      modify fun d => { d with totalProcess := d.totalProcess + 1 } : DevM Unit)
      (fun _ v => Sound P none v ∧ v.running = s.running ∧ v.listTimeout = s.listTimeout.erase c ∧ v.now = s.now)
      unbroken t := by
  have rest {t : HttpMgmt} (leaving : Leaving c s t) (cleared : ∀ fd, t.httpLookup fd = some (.http c) → fd = 0) :
      Every (do
        freeBuf curr'
        listSpliceInit (.writeTodo c) .caches
        listSpliceInit (.readTodo c) .caches
        let d ← data
        demand (c ∈ d.listTimeout) .list
        modify fun d => { d with listTimeout := d.listTimeout.erase c }
        freeContext c
        modify fun d => { d with totalProcess := d.totalProcess + 1 } : DevM Unit)
        (fun _ v => Sound P none v ∧ v.running = s.running ∧ v.listTimeout = s.listTimeout.erase c ∧ v.now = s.now)
        unbroken t := by
    refine every_still_then (.refl t) fun _ _ still => every_still_then still fun _ _ still =>
      every_still_then still fun _ u still => ?_
    have leaving := leaving.calm still.toCalm
    have lists := leaving.lists
    simp only [Prod.mk.injEq] at lists
    rw [every_bind, every_data, every_bind, every_demand]
    refine ⟨fun _ => ?_, fun unlisted => absurd (lists.2.2.2.1 ▸ sound.listed asks) unlisted⟩
    rw [every_bind, every_modify, every_bind, freeContext, every_bind, every_data, every_bind, every_demand]
    refine ⟨fun _ => ?_, fun used => absurd ?_ used⟩
    · refine ⟨sound.freed asks leaving fun fd found => cleared fd (still.lookup fd c found), lists.2.1, ?_, leaving.now⟩
      exact congrArg (List.erase · c) lists.2.2.2.1
    · obtain ⟨running, first, second⟩ := not_linked.mp fun member => ((sound.ready c).mp member).2.2 rfl
      refine ⟨?_, ?_, ?_, ?_⟩
      · exact lists.2.2.2.2 ▸ sound.not_free asks
      · exact lists.2.1 ▸ running
      · exact lists.1 ▸ first
      · exact lists.1 ▸ second
  rw [every_bind, every_when]
  refine ⟨fun _ => ?_, fun _ => rest leaving cleared⟩
  rw [every_bind]
  have free : Stills (freeBuf curr) := inferInstance
  refine every_post (free.along t) fun _ u still => ?_
  exact rest ((leaving.calm still.toCalm).setCtx ctx) fun fd found => cleared fd (still.lookup fd c found)

/-- A context that is busy is released. -/
theorem every_httpContextRelease (sound : Sound P (some c) s) (asks : asking c s.acts = true) :
    (httpContextRelease c).Every
      (fun _ v => Sound P none v ∧ v.running = s.running ∧ v.listTimeout = s.listTimeout.erase c ∧ v.now = s.now)
      unbroken s := by
  have leaving : Leaving c s ((s.note (.release (.http c))).setCtx c { s.ctxs c with status := .finish }) :=
    (leaving_note c s).setCtx _
  rw [httpContextRelease, every_bind, every_note, every_bind, every_getCtx, every_bind, every_setCtx, every_bind, every_when]
  constructor
  · intro open'
    rw [every_bind]
    refine every_post (every_dropFd _) fun _ u ⟨calm, cleared⟩ => ?_
    rw [every_bind, every_getCtx, every_setCtx, every_bind, every_getCtx]
    refine every_freed sound asks ((leaving.calm calm).setCtx _) fun fd found => ?_
    obtain ⟨_, _, zero | owner⟩ := sound.found fd c (leaving.lookup fd c (calm.lookup fd c found))
    · exact zero
    · change u.httpLookup (s.ctxs c).sockfd = none at cleared
      rw [owner.2] at cleared
      cases cleared.symm.trans found
  · intro closed
    rw [every_bind, every_getCtx]
    refine every_freed sound asks leaving fun fd found => ?_
    obtain ⟨positive, _, zero | owner⟩ := sound.found fd c found
    · exact zero
    · change ¬ 0 < (s.ctxs c).sockfd at closed
      rw [owner.2] at closed
      omega

/-- What comes after code that is not about the scheduling, where no error matters. -/
theorem every_calm_then {α β : Type} {code : DevM α} {next : α → DevM β} [calms : Calms code] {post : β → HttpMgmt → Prop}
    (after : ∀ a t, Calm s t → (next a).Every post (fun _ => True) t) :
    (code >>= next).Every post (fun _ => True) s := by
  rw [every_bind]
  exact every_mono (calms.along s) after fun _ _ => trivial

/-- A context that is not in the list of deadlines does not come to the end of its release. -/
theorem every_release_unlisted {post : Unit → HttpMgmt → Prop} (away : c ∉ s.listTimeout) :
    (httpContextRelease c).Every post (fun _ => True) s := by
  have rest {curr : Option BufId} {t : HttpMgmt} (away : c ∉ t.listTimeout) : Every (do
      freeBuf curr
      listSpliceInit (.writeTodo c) .caches
      listSpliceInit (.readTodo c) .caches
      let d ← data
      demand (c ∈ d.listTimeout) .list
      modify fun d => { d with listTimeout := d.listTimeout.erase c }
      freeContext c
      modify fun d => { d with totalProcess := d.totalProcess + 1 } : DevM Unit) post (fun _ => True) t := by
    refine every_calm_then fun _ _ freed => every_calm_then fun _ _ written => every_calm_then fun _ u read => ?_
    rw [every_bind, every_data, every_bind, every_demand]
    refine ⟨fun listed => absurd ?_ away, fun _ => trivial⟩
    rwa [← ((freed.trans written).trans read).listTimeout]
  have finish {t : HttpMgmt} (away : c ∉ t.listTimeout) : Every (do
      let ctx ← getCtx c
      when ctx.bufRead.curr.isSome do
        freeBuf ctx.bufRead.curr
        setCtx c { ctx with bufRead := { ctx.bufRead with curr := none } }
      freeBuf ctx.bufWrite.curr
      listSpliceInit (.writeTodo c) .caches
      listSpliceInit (.readTodo c) .caches
      let d ← data
      demand (c ∈ d.listTimeout) .list
      modify fun d => { d with listTimeout := d.listTimeout.erase c }
      freeContext c
      modify fun d => { d with totalProcess := d.totalProcess + 1 } : DevM Unit) post (fun _ => True) t := by
    rw [every_bind, every_getCtx, every_bind, every_when]
    refine ⟨fun _ => ?_, fun _ => rest away⟩
    refine every_calm_then fun _ u calm => rest (t := u.setCtx c _) ?_
    change c ∉ u.listTimeout
    rwa [calm.listTimeout]
  rw [httpContextRelease, every_bind, every_note, every_bind, every_getCtx, every_bind, every_setCtx, every_bind, every_when]
  refine ⟨fun _ => every_calm_then fun _ u calm => ?_, fun _ => finish away⟩
  rw [every_bind, every_getCtx, every_setCtx]
  refine finish ?_
  change c ∉ u.listTimeout
  rwa [calm.listTimeout]

/-! Contexts that are given requests. -/

/-- The list stays in order when what is inserted was given its request last. -/
theorem sorted_insertByTimeout (t : CtxId → Int) (at_ : CtxId → Nat) {l : List CtxId} {c : CtxId}
    (sorted : l.Pairwise fun a b => t a < t b ∨ t a = t b ∧ at_ a < at_ b) (last : ∀ a ∈ l, at_ a < at_ c) :
    (insertByTimeout t c l).Pairwise fun a b => t a < t b ∨ t a = t b ∧ at_ a < at_ b := by
  induction l with
  | nil => exact List.pairwise_singleton ..
  | cons entry rest ih =>
    rw [insertByTimeout]
    obtain ⟨first, others⟩ := List.pairwise_cons.mp sorted
    split
    next before =>
      refine List.pairwise_cons.mpr ⟨fun b member => ?_, sorted⟩
      rcases List.mem_cons.mp member with rfl | member
      · exact .inl before
      · rcases first b member with less | ⟨same, _⟩
        · exact .inl (before.trans less)
        · exact .inl (same ▸ before)
    next after =>
      refine List.pairwise_cons.mpr ⟨fun b member => ?_, ih others fun a member => last a (List.mem_cons_of_mem _ member)⟩
      rcases List.mem_cons.mp ((insertByTimeout_perm t c rest).mem_iff.mp member) with rfl | member
      · rcases lt_or_eq_of_le (not_lt.mp after) with less | same
        · exact .inl less
        · exact .inr ⟨same, last entry List.mem_cons_self⟩
      · exact first b member

/-- The state in which a context was given a request. -/
def asked (c : CtxId) (fd : Int) (ctx : HttpContext) (d : HttpMgmt) : HttpMgmt :=
  (d.note (.socket (.http c) fd)).setCtx c ctx

/-- The state in which it is in the lists. -/
def opened (c : CtxId) (fd : Int) (ctx : HttpContext) (d : HttpMgmt) : HttpMgmt :=
  let t := relinked c (asked c fd ctx d)
  { t with listTimeout := insertByTimeout (fun c => (t.ctxs c).timeout) c t.listTimeout }

theorem Sound.opened {fd : Int} {ctx : HttpContext} (sound : Sound P none s) (idle : asking c s.acts = false)
    (ready : ctx.status = .ready) (used : c ∉ s.ctxCaches) (deadline : P ctx.timeout) :
    Sound P none (opened c fd ctx s) := by
  obtain ⟨away, untimed⟩ := sound.away idle
  have asks : asking c (asked c fd ctx s).acts = true := if_pos rfl
  have others (c' : CtxId) (apart : c' ≠ c) : asking c' (asked c fd ctx s).acts = asking c' s.acts :=
    if_neg fun same => apart (Owner.http.inj same).symm
  have self : (asked c fd ctx s).ctxs c = ctx := setCtx_self ..
  have other (c' : CtxId) (apart : c' ≠ c) : (asked c fd ctx s).ctxs c' = s.ctxs c' := setCtx_other apart ..
  have context (c' : CtxId) := context_relinked (c := c) (d := asked c fd ctx s) c'
  simp only [Prod.mk.injEq] at context
  have timeout (c' : CtxId) : ((Scheduler.opened c fd ctx s).ctxs c').timeout = ((asked c fd ctx s).ctxs c').timeout :=
    (context c').2.1
  have perm : (Scheduler.opened c fd ctx s).listTimeout.Perm (c :: s.listTimeout) := insertByTimeout_perm ..
  constructor
  case ready =>
    intro c'
    change c' ∈ linked (Scheduler.relinked c (asked c fd ctx s)) ↔ Responses.asking c' (asked c fd ctx s).acts = true ∧
      ((Scheduler.relinked c (asked c fd ctx s)).ctxs c').status = .ready ∧ _
    rw [mem_linked_relinked, (context c').1]
    change c' = c ∨ c' ∈ linked s ↔ _
    by_cases same : c' = c
    · subst same
      rw [self]
      exact ⟨fun _ => ⟨asks, ready, by simp⟩, fun _ => .inl rfl⟩
    · rw [other c' same, others c' same, ← sound.ready]
      exact or_iff_right same
  case once => exact once_relinked (d := asked c fd ctx s) sound.once away
  case prio =>
    refine prio_relinked (d := asked c fd ctx s) away fun c' => ?_
    by_cases same : c' = c
    · subst same
      obtain ⟨_, first, second⟩ := not_linked.mp away
      exact ⟨fun member => absurd member first, fun member => absurd member second⟩
    · rw [other c' same]
      exact sound.prio c'
  case count => exact count_relinked (d := asked c fd ctx s) sound.count
  case connecting =>
    intro c' asks' connect
    change ((Scheduler.relinked c (asked c fd ctx s)).ctxs c').status = _
    rw [(context c').1]
    by_cases same : c' = c
    · subst same
      rw [self]
      exact ready
    · change ((Scheduler.relinked c (asked c fd ctx s)).ctxs c').funcRun = _ at connect
      rw [(context c').2.2.2, other c' same] at connect
      rw [other c' same]
      exact sound.connecting c' (others c' same ▸ asks') connect
  case timed =>
    intro c'
    rw [perm.mem_iff, List.mem_cons, sound.timed]
    change _ ↔ Responses.asking c' (asked c fd ctx s).acts = true
    by_cases same : c' = c
    · subst same
      exact ⟨fun _ => asks, fun _ => .inl rfl⟩
    · rw [others c' same]
      exact or_iff_right same
  case timedOnce => exact perm.nodup_iff.mpr (List.nodup_cons.mpr ⟨untimed, sound.timedOnce⟩)
  case sorted =>
    have apart {c' : CtxId} (member : c' ∈ s.listTimeout) : c' ≠ c := fun same => untimed (same ▸ member)
    have kept {c' : CtxId} (apart : c' ≠ c) : openedAt c' (Scheduler.opened c fd ctx s).acts = openedAt c' s.acts := by
      have other : opens c' (.socket (.http c) fd) = false := decide_eq_false fun same => apart (Owner.http.inj same).symm
      exact openedAt_cons_of_other other s.acts
    have now : openedAt c (Scheduler.opened c fd ctx s).acts = s.acts.length + 1 := openedAt_cons_self c fd s.acts
    refine sorted_insertByTimeout (fun c' => ((Scheduler.opened c fd ctx s).ctxs c').timeout)
      (fun c' => openedAt c' (Scheduler.opened c fd ctx s).acts) ?_ fun a member => ?_
    · refine sound.sorted.imp_of_mem fun {a b} first second earlier => ?_
      rwa [timeout, timeout, other a (apart first), other b (apart second), kept (apart first), kept (apart second)]
    · rw [kept (apart member), now]
      exact Nat.lt_succ_of_le (openedAt_le a s.acts)
  case deadlines =>
    intro c' member
    rw [timeout]
    by_cases same : c' = c
    · subst same
      rwa [self]
    · rw [other c' same]
      exact sound.deadlines c' ((List.mem_cons.mp (perm.mem_iff.mp member)).resolve_left same)
  case free =>
    intro c' member
    have apart : c' ≠ c := fun same => used (same ▸ member)
    exact (others c' apart).trans (sound.free c' member)
  case freeOnce => exact sound.freeOnce
  case idle =>
    intro c' idle'
    have apart : c' ≠ c := by
      rintro rfl
      cases asks.symm.trans idle'
    change c' ∈ s.ctxCaches ∨ ((Scheduler.relinked c (asked c fd ctx s)).ctxs c').status = .ready
    rw [(context c').1, other c' apart]
    exact sound.idle c' ((others c' apart).symm.trans idle')
  case found =>
    intro fd' c' found
    obtain ⟨positive, given, owner⟩ := sound.found fd' c' found
    refine ⟨positive, List.mem_cons_of_mem _ given, ?_⟩
    by_cases same : c' = c
    · subst same
      exact .inl (owner.resolve_right fun asks => nomatch idle.symm.trans asks.1)
    · change fd' = 0 ∨ Responses.asking c' (asked c fd ctx s).acts = true ∧
        ((Scheduler.relinked c (asked c fd ctx s)).ctxs c').sockfd = fd'
      rw [others c' same, (context c').2.2.1, other c' same]
      exact owner

/-- The descriptor of a context is entered for it. -/
theorem Sound.lookedUp {fd : Int} (sound : Sound P none s) (asks : asking c s.acts = true)
    (given : .socket (.http c) fd ∈ s.acts) (positive : 0 ≤ fd) (sockfd : (s.ctxs c).sockfd = fd) :
    Sound P none { s with httpLookup := update s.httpLookup fd (some (.http c)) } :=
  { sound with
    found := fun fd' c' found => by
      change update s.httpLookup fd (some (.http c)) fd' = _ at found
      by_cases same : fd' = fd
      · subst same
        rw [update_self] at found
        cases found
        exact ⟨positive, given, .inr ⟨asks, sockfd⟩⟩
      · rw [update_of_ne same] at found
        exact sound.found fd' c' found }

end

end WebTunnel.Device.Scheduler
