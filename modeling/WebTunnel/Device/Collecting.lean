import WebTunnel.Device.Calling

/-! The collection of the contexts whose deadline has come. -/

namespace WebTunnel.Device.Collecting
set_option synthInstance.maxSize 10000
open Library.Bytes Library.Lists Library.Routines Library.Routines.Routine Library.Run Function Device.Types Buffers
open Http Manager Responses Scheduling Scheduler Calling

/-- The contexts whose deadline has come, in the order of the list. -/
def due (now : Int) (d : HttpMgmt) : List CtxId := d.listTimeout.filter fun c => (d.ctxs c).timeout ≤ now

/-- They were released, each once, and nothing is different for the others. -/
structure Collected (now : Int) (s t : HttpMgmt) : Prop where
  released : t.acts = (due now s).reverse.map (fun c => .release (.http c)) ++ s.acts
  timed : t.listTimeout = s.listTimeout.filter fun c => now < (s.ctxs c).timeout
  ready : ∀ prio, prio = 0 ∨ prio = 1 → t.listReady prio = (s.listReady prio).filter (· ∉ due now s)
  count : t.readyLen = s.readyLen - ((due now s).filter fun c => (s.ctxs c).status = .ready).length
  free : t.ctxCaches = (due now s).reverse ++ s.ctxCaches
  others : ∀ c ∉ due now s, t.ctxs c = s.ctxs c

section
variable {P : Int → Prop} {c : CtxId} {s t u : HttpMgmt} {err : Fault → Prop}

/-! The release of one context. -/

/-- A context was released. Its descriptor, if it had one, is not polled any more. -/
def Released (c : CtxId) (s t : HttpMgmt) : Prop :=
  ∃ ctxs pollfds fdLookup httpLookup, (∀ c' ≠ c, ctxs c' = s.ctxs c') ∧ t = freed c { s with
    acts := .release (.http c) :: s.acts
    ctxs, pollfds, fdLookup, httpLookup
    countPollfds := s.countPollfds - if 0 < (s.ctxs c).sockfd then 1 else 0 }

theorem every_freeBuf (b : Option BufId) (post : Unit → HttpMgmt → Prop) : (freeBuf b).Every post err s ↔ post () s := by
  cases b <;> rfl

theorem every_dropFd_polled (fd : Int) :
    (dropFd fd).Every (fun _ t => ∃ pollfds fdLookup httpLookup, t = { s with
      pollfds, fdLookup, httpLookup, countPollfds := s.countPollfds - 1 })
      (fun e => e = .outOfBounds ∧ s.countPollfds = 0) s := by
  rw [dropFd, every_bind, mgmtDelFd, every_bind, every_data, every_bind, every_demand]
  refine ⟨fun _ => ?_, fun empty => ⟨rfl, Nat.eq_zero_of_not_pos empty⟩⟩
  rw [every_bind, every_modify, every_ite]
  split
  · exact ⟨_, _, _, rfl⟩
  · exact ⟨_, _, _, rfl⟩

/-- What is left of a release when the descriptor is gone. -/
theorem every_rest {curr curr' : Option BufId} {ctx : HttpContext} (listed : c ∈ u.listTimeout)
    (away : c ∉ u.ctxCaches ∧ c ∉ u.running ∧ c ∉ u.listReady 0 ∧ c ∉ u.listReady 1) :
    Every (do
      when curr.isSome do
        freeBuf curr
        setCtx c ctx
      freeBuf curr'
      listSpliceInit (.writeTodo c) .caches
      listSpliceInit (.readTodo c) .caches
      let d ← data
      demand (c ∈ d.listTimeout) .list
      modify fun d => { d with listTimeout := d.listTimeout.erase c }
      freeContext c
      modify fun d => { d with totalProcess := d.totalProcess + 1 } : DevM Unit)
      (fun _ t => ∃ ctxs, (∀ c' ≠ c, ctxs c' = u.ctxs c') ∧ t = freed c { u with ctxs }) err u := by
  have rest (v : HttpMgmt) (others : ∀ c' ≠ c, v.ctxs c' = u.ctxs c') (same : v = { u with ctxs := v.ctxs }) : Every (do
      freeBuf curr'
      listSpliceInit (.writeTodo c) .caches
      listSpliceInit (.readTodo c) .caches
      let d ← data
      demand (c ∈ d.listTimeout) .list
      modify fun d => { d with listTimeout := d.listTimeout.erase c }
      freeContext c
      modify fun d => { d with totalProcess := d.totalProcess + 1 } : DevM Unit)
      (fun _ t => ∃ ctxs, (∀ c' ≠ c, ctxs c' = u.ctxs c') ∧ t = freed c { u with ctxs }) err v := by
    rw [same, every_bind, every_freeBuf, every_bind, every_listSpliceInit, every_bind, every_listSpliceInit, every_bind,
      every_data, every_bind, every_demand]
    refine ⟨fun _ => ?_, fun unlisted => absurd listed unlisted⟩
    rw [every_bind, every_modify, every_bind, freeContext, every_bind, every_data, every_bind, every_demand]
    exact ⟨fun _ => ⟨v.ctxs, others, rfl⟩, fun used => absurd away used⟩
  rw [every_bind, every_when]
  refine ⟨fun _ => ?_, fun _ => rest u (fun _ _ => rfl) rfl⟩
  rw [every_bind, every_freeBuf, every_setCtx]
  exact rest _ (fun c' other => setCtx_other other u ctx) rfl

theorem every_httpContextRelease_released (listed : c ∈ s.listTimeout)
    (away : c ∉ s.ctxCaches ∧ c ∉ s.running ∧ c ∉ s.listReady 0 ∧ c ∉ s.listReady 1) :
    (httpContextRelease c).Every (fun _ t => Released c s t)
      (fun e => e = .outOfBounds ∧ s.countPollfds = 0 ∧ 0 < (s.ctxs c).sockfd) s := by
  rw [httpContextRelease, every_bind, every_note, every_bind, every_getCtx, every_bind, every_setCtx, every_bind, every_when]
  constructor
  · intro open'
    have open' : 0 < (s.ctxs c).sockfd := open'
    rw [every_bind]
    refine every_mono (every_dropFd_polled _) ?_ fun e fault => ⟨fault.1, fault.2, open'⟩
    rintro _ u ⟨pollfds, fdLookup, httpLookup, rfl⟩
    rw [every_bind, every_getCtx, every_setCtx, every_bind, every_getCtx]
    refine every_post (every_rest listed away) ?_
    rintro _ t ⟨ctxs, others, rfl⟩
    refine ⟨ctxs, pollfds, fdLookup, httpLookup, fun c' other => ?_, ?_⟩
    · rw [others c' other, setCtx_other other]
      exact setCtx_other other ..
    · rw [if_pos open']
      rfl
  · intro closed
    have closed : ¬ 0 < (s.ctxs c).sockfd := closed
    rw [every_bind, every_getCtx]
    refine every_post (every_rest listed away) ?_
    rintro _ t ⟨ctxs, others, rfl⟩
    refine ⟨ctxs, s.pollfds, s.fdLookup, s.httpLookup, fun c' other => ?_, ?_⟩
    · rw [others c' other]
      exact setCtx_other other ..
    · rw [if_neg closed]
      rfl

/-- The state in which a context is to be released. -/
def forced (c : CtxId) (s : HttpMgmt) : HttpMgmt := if (s.ctxs c).status = .ready then unlinked c s else s

/-- What is different when a context was taken out of its ready list and released. -/
structure Left (c : CtxId) (s t : HttpMgmt) : Prop where
  acts : t.acts = .release (.http c) :: s.acts
  timed : t.listTimeout = s.listTimeout.erase c
  ready : ∀ prio, t.listReady prio = if (s.ctxs c).status = .ready then (s.listReady prio).erase c else s.listReady prio
  count : t.readyLen = s.readyLen - if (s.ctxs c).status = .ready then 1 else 0
  free : t.ctxCaches = c :: s.ctxCaches
  others : ∀ c' ≠ c, t.ctxs c' = s.ctxs c'
  polled : t.countPollfds = s.countPollfds - if 0 < (s.ctxs c).sockfd then 1 else 0

theorem left_of_released (released : Released c (forced c s) t) : Left c s t := by
  obtain ⟨ctxs, pollfds, fdLookup, httpLookup, others, rfl⟩ := released
  rw [forced] at others ⊢
  by_cases ready : (s.ctxs c).status = .ready
  · rw [if_pos ready] at others ⊢
    exact ⟨rfl, rfl, fun prio => (if_pos ready).symm, (congrArg (s.readyLen - ·) (if_pos ready)).symm, rfl, others, rfl⟩
  · rw [if_neg ready] at others ⊢
    refine ⟨rfl, rfl, fun prio => (if_neg ready).symm, ?_, rfl, others, rfl⟩
    rw [if_neg ready, sub_zero]
    rfl

theorem every_forceRelease_released (sound : Sound P none s) (asks : asking c s.acts = true) :
    (forceRelease c).Every (fun _ t => Left c s t)
      (fun e => e = .outOfBounds ∧ s.countPollfds = 0 ∧ 0 < (s.ctxs c).sockfd) s := by
  have listed := sound.listed asks
  have used := sound.not_free asks
  refine every_post ?_ fun _ t => left_of_released
  rw [forceRelease, every_bind, every_getCtx, every_bind, every_when]
  constructor
  · intro ready
    have member : c ∈ linked s := (sound.ready c).mpr ⟨asks, ready, by simp⟩
    have left := (sound.unlinked asks ready).ready c
    have away : c ∉ linked (unlinked c s) := fun member => (left.mp member).2.2 rfl
    rw [unready, every_bind, every_data, every_bind, every_demand]
    refine ⟨fun _ => ?_, fun away => absurd ?_ away⟩
    · rw [every_modify, forced, if_pos ready]
      exact every_httpContextRelease_released (s := unlinked c s) listed ⟨used, not_linked.mp away⟩
    · simpa only [linked, List.mem_append] using member
  · intro waits
    have away : c ∉ linked s := fun member => waits ((sound.ready c).mp member).2.1
    rw [forced, if_neg waits]
    exact every_httpContextRelease_released listed ⟨used, not_linked.mp away⟩

/-! All that are due. -/

theorem due_eq_nil {rest : List CtxId} {now : Int} (sorted : s.listTimeout.Pairwise (Earlier s)) (all : s.listTimeout = c :: rest)
    (later : now < (s.ctxs c).timeout) : due now s = [] := by
  rw [due, List.filter_eq_nil_iff]
  intro c' member
  rw [all] at member sorted
  simp only [decide_eq_true_eq, not_le]
  rcases List.mem_cons.mp member with rfl | member
  · exact later
  · rcases List.rel_of_pairwise_cons sorted member with less | ⟨same, _⟩
    · exact later.trans less
    · exact same ▸ later

theorem collected_of_none {now : Int} (none : due now s = []) : Collected now s s := by
  have later : ∀ c ∈ s.listTimeout, now < (s.ctxs c).timeout := by
    intro c member
    have out := List.filter_eq_nil_iff.mp none c member
    simpa using out
  refine ⟨by rw [none]; rfl, ?_, fun prio _ => ?_, by rw [none]; simp, by rw [none]; rfl, fun _ _ => rfl⟩
  · rw [List.filter_eq_self.mpr fun c member => decide_eq_true (later c member)]
  · rw [none, List.filter_eq_self.mpr fun c _ => by simp]

/-- The first of the list is due and was released. -/
theorem due_of_left {rest : List CtxId} {now : Int} (all : s.listTimeout = c :: rest) (once : s.listTimeout.Nodup)
    (isDue : (s.ctxs c).timeout ≤ now) (left : Left c s u) :
    u.listTimeout = rest ∧ due now s = c :: due now u ∧ ∀ c' ∈ rest, u.ctxs c' = s.ctxs c' := by
  have timed : u.listTimeout = rest := by
    rw [left.timed, all, List.erase_cons_head]
  rw [all, List.nodup_cons] at once
  have kept : ∀ c' ∈ rest, u.ctxs c' = s.ctxs c' := fun c' member => left.others c' fun same => once.1 (same ▸ member)
  refine ⟨timed, ?_, kept⟩
  have first : decide ((s.ctxs c).timeout ≤ now) = true := decide_eq_true isDue
  rw [due, due, all, timed, List.filter_cons, if_pos first]
  refine congrArg (c :: ·) (List.filter_congr fun c' member => ?_)
  rw [kept c' member]

theorem collected_cons {rest : List CtxId} {now : Int} (sound : Sound P none s) (running : s.running = [])
    (all : s.listTimeout = c :: rest) (isDue : (s.ctxs c).timeout ≤ now) (left : Left c s u)
    (collected : Collected now u t) : Collected now s t := by
  obtain ⟨timed, dues, kept⟩ := due_of_left all sound.timedOnce isDue left
  have asks : asking c s.acts = true := (sound.timed c).mp (all ▸ List.mem_cons_self)
  have others : ∀ c' ∈ due now u, u.ctxs c' = s.ctxs c' := fun c' member => kept c' (timed ▸ List.mem_of_mem_filter member)
  constructor
  case released =>
    rw [collected.released, dues, left.acts, List.reverse_cons, List.map_append, List.append_assoc]
    rfl
  case timed =>
    have first : ¬ decide (now < (s.ctxs c).timeout) = true := by simpa using isDue
    rw [collected.timed, timed, all, List.filter_cons, if_neg first]
    exact List.filter_congr fun c' member => by rw [kept c' member]
  case ready =>
    intro prio either
    have once : (s.listReady prio).Nodup := by
      have all := sound.once
      rw [linked, running, List.nil_append] at all
      rcases either with rfl | rfl
      · exact all.of_append_left
      · exact all.of_append_right
    have erased : u.listReady prio = (s.listReady prio).filter (· ≠ c) := by
      rw [left.ready]
      split
      · rw [once.erase_eq_filter]
        exact List.filter_congr fun c' _ => by rw [decide_not]; rfl
      next waits =>
        refine (List.filter_eq_self.mpr fun c' member => ?_).symm
        have member : c' ∈ linked s := by
          rw [linked, running, List.nil_append, List.mem_append]
          rcases either with rfl | rfl
          · exact .inl member
          · exact .inr member
        simp only [ne_eq, decide_not, Bool.not_eq_eq_eq_not, Bool.not_true, decide_eq_false_iff_not]
        rintro rfl
        exact waits ((sound.ready c').mp member).2.1
    rw [collected.ready prio either, erased, List.filter_filter, dues]
    refine List.filter_congr fun c' _ => ?_
    simp only [List.mem_cons, not_or, ne_eq, Bool.decide_and, Bool.and_comm]
  case count =>
    have same : (due now u).filter (fun c => (u.ctxs c).status = .ready) = (due now u).filter fun c => (s.ctxs c).status = .ready :=
      List.filter_congr fun c' member => by rw [others c' member]
    rw [collected.count, left.count, dues, same, List.filter_cons]
    split
    next ready =>
      rw [if_pos (decide_eq_true ready), List.length_cons]
      omega
    next waits => rw [if_neg fun ready => waits (of_decide_eq_true ready), sub_zero]
  case free =>
    rw [collected.free, left.free, dues, List.reverse_cons, List.append_assoc]
    rfl
  case others =>
    intro c' away
    rw [dues, List.mem_cons, not_or] at away
    rw [collected.others c' away.2, left.others c' away.1]

/-- The descriptors that are not polled any more when all that are due are released. -/
def descriptors (now : Int) (d : HttpMgmt) : Nat := ((due now d).filter fun c => 0 < (d.ctxs c).sockfd).length

theorem every_releaseExpired_collected {l : List CtxId} (orderly : Orderly P s) (all : s.listTimeout = l) :
    (releaseExpired l).Every (fun _ t => Collected s.now s t)
      (fun e => e = .outOfBounds ∧ s.countPollfds < descriptors s.now s) s := by
  induction l generalizing s with
  | nil => exact collected_of_none (by rw [due, all]; rfl)
  | cons c rest ih =>
    have ⟨sound, running⟩ := orderly
    have asks : asking c s.acts = true := (sound.timed c).mp (all ▸ List.mem_cons_self)
    rw [releaseExpired, every_bind, every_data, every_when]
    refine ⟨fun isDue => ?_, fun later => collected_of_none (due_eq_nil sound.sorted all (not_le.mp later))⟩
    have more (u : HttpMgmt) (left : Left c s u) :
        descriptors s.now s = (if 0 < (s.ctxs c).sockfd then 1 else 0) + descriptors s.now u := by
      obtain ⟨timed, dues, kept⟩ := due_of_left all sound.timedOnce isDue left
      have same : (due s.now u).filter (fun c => 0 < (u.ctxs c).sockfd) = (due s.now u).filter fun c => 0 < (s.ctxs c).sockfd :=
        List.filter_congr fun c' member => by rw [kept c' (timed ▸ List.mem_of_mem_filter member)]
      rw [descriptors, descriptors, dues, same, List.filter_cons]
      split
      next open' => rw [if_pos (of_decide_eq_true open'), List.length_cons, Nat.add_comm]
      next closed => rw [if_neg fun open' => closed (decide_eq_true open'), Nat.zero_add]
    rw [every_bind]
    have both := every_and (every_forceRelease_released sound asks)
      (every_mono (every_forceRelease sound asks) (fun _ _ h => h) fun _ _ => trivial)
    refine every_mono both ?_ ?_
    · rintro _ u ⟨left, sound', running', timed, now⟩
      rw [running] at running'
      rw [all, List.erase_cons_head] at timed
      refine every_mono (ih ⟨sound', running'⟩ timed) ?_ ?_
      · intro _ t collected
        rw [now] at collected
        exact collected_cons sound running all isDue left collected
      · rintro e ⟨outside, fewer⟩
        refine ⟨outside, ?_⟩
        rw [now, left.polled] at fewer
        rw [more u left]
        omega
    · rintro e ⟨outside, empty, open'⟩
      refine ⟨outside, ?_⟩
      rw [empty, descriptors, List.length_pos_iff_exists_mem]
      refine ⟨c, List.mem_filter.mpr ⟨List.mem_filter.mpr ⟨?_, decide_eq_true isDue⟩, decide_eq_true open'⟩⟩
      exact all ▸ List.mem_cons_self

end

/-- In every state that is reached the list is in the order of deadlines, and among equal deadlines in the
order in which the contexts were given their requests. A collection releases exactly the contexts that are
due; the only other way for it to end is that a descriptor is to be taken off the poll set while that is
empty, which takes more contexts that are due than the poll set has entries. -/
theorem collects_due {d : HttpMgmt} (reached : Reach Calling.step (fun _ _ => True) Begins d) :
    d.listTimeout.Pairwise (Earlier d) ∧ ∀ (now : Int) (replies : List Reply) (lists : List (List BufId)),
      (∃ t, Calling.step d ⟨.runTimeout, now, replies, lists⟩ = some t ∧ Collected now d t) ∨
        outcome d ⟨.runTimeout, now, replies, lists⟩ = .error .outOfBounds ∧ d.countPollfds < descriptors now d := by
  have orderly := orderly_of_reached reached
  refine ⟨orderly.1.sorted, fun now replies lists => ?_⟩
  have ran := every_answered (every_releaseExpired_collected (orderly.tick now replies) rfl) lists
  cases result : outcome d ⟨.runTimeout, now, replies, lists⟩ with
  | ok ended =>
    obtain ⟨_, rest, t⟩ := ended
    refine .inl ⟨t, by rw [Calling.step, result], ?_⟩
    have collected := ran.1 _ _ _ result
    exact ⟨collected.released, collected.timed, collected.ready, collected.count, collected.free, collected.others⟩
  | error e =>
    obtain ⟨rfl, fewer⟩ := ran.2 _ result
    exact .inr ⟨rfl, fewer⟩

/-! Three requests, two of which are due before the third. -/

def secondCtx : CtxId := ⟨254, by decide⟩
def thirdCtx : CtxId := ⟨253, by decide⟩

def threeRequests : List Occasion :=
  connectingRequest ++ [⟨.receive Answering.requestFrame, 1, [.value 6]⟩, ⟨.run, 1, [.value 0x0a000001, .value 0]⟩,
    ⟨.receive Answering.requestFrame, 5, [.value 7]⟩]

def areWaiting (w : DevState) : Bool :=
  decide (w.data.listTimeout = [Answering.firstCtx, secondCtx, thirdCtx] ∧ (w.data.ctxs Answering.firstCtx).timeout = 11 ∧
    (w.data.ctxs secondCtx).timeout = 11 ∧ (w.data.ctxs thirdCtx).timeout = 15 ∧ descriptors 11 w.data ≤ w.data.countPollfds)

theorem threeRequests_waiting : (Library.Run.run Manager.step Reassembly.device threeRequests).map areWaiting = some true := by
  decide +kernel

theorem collects_due_three : ∃ d t, d.listTimeout = [Answering.firstCtx, secondCtx, thirdCtx] ∧
    Calling.step d ⟨.runTimeout, 11, [], []⟩ = some t ∧ due 11 d = [Answering.firstCtx, secondCtx] ∧ Collected 11 d t ∧
    t.listTimeout = [thirdCtx] := by
  obtain ⟨w, ran, waiting⟩ := Option.map_eq_some_iff.mp threeRequests_waiting
  obtain ⟨list, first, second, third, enough⟩ := of_decide_eq_true waiting
  rcases (collects_due (reached_of_reached (reach_of_free_run Reassembly.device_starts ran))).2 11 [] [] with ⟨t, moved, collected⟩ | ⟨_, fewer⟩
  · have isDue : due 11 w.data = [Answering.firstCtx, secondCtx] := by
      rw [due, list]
      simp [first, second, third]
    refine ⟨w.data, t, list, moved, isDue, collected, ?_⟩
    rw [collected.timed, list]
    simp [first, second, third]
  · omega

end WebTunnel.Device.Collecting
