import WebTunnel.Device.Calling

/-! The deadlines of HTTP contexts in the main loop, which calls `http_mgmt_run_timeout` when
`poll` fails only. -/

namespace WebTunnel.Device.Deadlines
open Library.Bytes Library.Lists Library.Routines Library.Routines.Routine Library.Run Function Device.Types Buffers
open Http Responses Scheduling Scheduler Calling
open Manager hiding step

/-- A reading of the clock, and what the system and the lists of buffers answer then. -/
structure Moment where
  now : Int
  replies : List Reply
  lists : List (List BufId)

def Moment.calls (moment : Moment) (call : Call) : Occurrence := ⟨call, moment.now, moment.replies, moment.lists⟩

/-- The events that the WebSocket library calls back with. -/
def isCallback : Event → Bool
  | .established | .receive _ | .writable | .addPollFd _ _ | .delPollFd _ | .changeModePollFd _ _ => true
  | _ => false

structure Callback where
  event : Event
  moment : Moment
  called : isCallback event = true

/-- A slot with events: the time is noted, once, the library serves the descriptor, and then
`http_mgmt_service` does. -/
structure Service where
  alive : Int
  callbacks : List Callback
  service : Moment

/-- The result of `poll`; a slot without events is passed over. -/
inductive Polled where
  | failed (timeout : Moment)
  | served (revents : Nat → PollEvents) (slots : List (Option Service))

/-- A complete iteration of the service loop of `main`. -/
structure Iteration where
  run : Moment
  polled : Polled

def occurs : HttpMgmt → List Occurrence → Option HttpMgmt := Library.Run.run step

def Callback.occurrence (callback : Callback) : Occurrence := callback.moment.calls (.other callback.event)

/-- The last of them is the call of `http_mgmt_service` alone, which does not note the time. -/
def Service.occurrences (service : Service) (slot : Nat) : List Occurrence :=
  service.callbacks.map Callback.occurrence ++ [service.service.calls (.service slot)]

/-- The loop over the slots, whose number may change while it runs. -/
def serve (slot : Nat) : List (Option Service) → HttpMgmt → Option HttpMgmt
  | [], d => if d.countPollfds ≤ slot then some d else none
  | none :: rest, d =>
    if slot < d.countPollfds ∧ (d.pollfds slot).revents = 0 then serve (slot + 1) rest d else none
  | some service :: rest, d =>
    if slot < d.countPollfds ∧ (d.pollfds slot).revents ≠ 0 then
      (occurs { d with lastAliveTime := service.alive } (service.occurrences slot)).bind (serve (slot + 1) rest)
    else none

def poll (revents : Nat → PollEvents) (d : HttpMgmt) : HttpMgmt :=
  { d with pollfds := fun slot =>
      if slot < d.countPollfds then { d.pollfds slot with revents := revents slot } else d.pollfds slot }

def iterate (d : HttpMgmt) (it : Iteration) : Option HttpMgmt :=
  (step d (it.run.calls .run)).bind fun d =>
    match it.polled with
    | .failed timeout => step d (timeout.calls .runTimeout)
    | .served revents slots => serve 0 slots (poll revents d)

def Service.readings (service : Service) : List Int :=
  service.alive :: service.callbacks.map (·.moment.now) ++ [service.service.now]

/-- The readings of the clock in an iteration that come after the one of `http_mgmt_run`. -/
def Polled.readings : Polled → List Int
  | .failed timeout => [timeout.now]
  | .served _ slots => (slots.filterMap id).flatMap Service.readings

def Iteration.readings (it : Iteration) : List Int := it.run.now :: it.polled.readings

/-- The time that was read last. -/
def Iteration.last (it : Iteration) : Int := it.polled.readings.getLastD it.run.now

/-- The manager in the main loop, and the time read in the iteration that was completed just
now, if there was one. -/
structure Loop where
  mgmt : HttpMgmt
  completed : Option Int

/-- A complete iteration, or what happens before the loop, in an iteration that is cut short, and
when the connection is lost. -/
inductive Turn where
  | iteration (it : Iteration)
  | outside (o : Occurrence)

def turn (w : Loop) : Turn → Option Loop
  | .iteration it => (iterate w.mgmt it).map fun d => ⟨d, some it.last⟩
  | .outside o => (step w.mgmt o).map fun d => ⟨d, none⟩

def Opens (w : Loop) : Prop := Begins w.mgmt ∧ w.completed = none

def Polled.fails : Polled → Bool
  | .failed _ => true
  | .served _ _ => false

/-- `poll` fails, or no deadline of a context comes in the iteration. -/
def InTime (d : HttpMgmt) (it : Iteration) : Prop :=
  it.polled.fails = true ∨
    (∀ c ∈ d.listTimeout, it.last < (d.ctxs c).timeout) ∧ ∀ reading ∈ it.readings, it.last < reading + 10

def AllInTime (w : Loop) : Turn → Prop
  | .iteration it => InTime w.mgmt it
  | .outside _ => True

section
variable {P Q : Int → Prop} {c : CtxId} {s t d : HttpMgmt}

theorem Orderly.mono (orderly : Orderly P s) (deadlines : ∀ c ∈ s.listTimeout, Q (s.ctxs c).timeout) : Orderly Q s := by
  obtain ⟨sound, running⟩ := orderly
  exact ⟨⟨sound.ready, sound.once, sound.prio, sound.count, sound.connecting, sound.timed, sound.timedOnce, sound.sorted,
    deadlines, sound.free, sound.freeOnce, sound.idle, sound.found⟩, running⟩

/-- A slot is served; no context is created whose deadline does not have the property. -/
theorem orderly_occurs {occurrences : List Occurrence} (orderly : Orderly P s)
    (timely : ∀ o ∈ occurrences, Timely P o.now o.call) (ran : occurs s occurrences = some t) : Orderly P t := by
  induction occurrences generalizing s with
  | nil =>
    cases ran
    exact orderly
  | cons o rest ih =>
    rw [occurs, run_cons] at ran
    obtain ⟨u, moved, ran⟩ := Option.bind_eq_some_iff.mp ran
    exact ih (orderly_step orderly (timely o List.mem_cons_self) moved)
      (fun o member => timely o (List.mem_cons_of_mem _ member)) ran

theorem timely_occurrences {service : Service} (timely : ∀ reading ∈ service.readings, P (reading + 10)) (slot : Nat) :
    ∀ o ∈ service.occurrences slot, Timely P o.now o.call := by
  intro o member
  rcases List.mem_append.mp member with called | served
  · obtain ⟨callback, among, rfl⟩ := List.mem_map.mp called
    refine timely _ (List.mem_append_left _ (List.mem_cons_of_mem _ ?_))
    exact List.mem_map.mpr ⟨callback, among, rfl⟩
  · rw [List.mem_singleton.mp served]
    exact timely _ (List.mem_append_right _ List.mem_cons_self)

theorem orderly_serve {slots : List (Option Service)} {slot : Nat} (orderly : Orderly P s)
    (timely : ∀ reading ∈ (slots.filterMap id).flatMap Service.readings, P (reading + 10))
    (ran : serve slot slots s = some t) : Orderly P t := by
  induction slots generalizing s slot with
  | nil =>
    obtain ⟨_, same⟩ := Option.ite_none_right_eq_some.mp ran
    cases same
    exact orderly
  | cons first rest ih =>
    cases first with
    | none =>
      obtain ⟨_, ran⟩ := Option.ite_none_right_eq_some.mp ran
      exact ih orderly timely ran
    | some service =>
      obtain ⟨_, ran⟩ := Option.ite_none_right_eq_some.mp ran
      obtain ⟨u, served, ran⟩ := Option.bind_eq_some_iff.mp ran
      have alive : Orderly P { s with lastAliveTime := service.alive } := orderly.calm (calm_of_same rfl)
      have during (reading : Int) (member : reading ∈ service.readings) : P (reading + 10) :=
        timely reading (List.mem_append_left _ member)
      refine ih (orderly_occurs alive (timely_occurrences during slot) served) (fun reading member => ?_) ran
      exact timely reading (List.mem_append_right _ member)

/-- After an iteration that fails to poll, or in which no deadline comes, no context is due. -/
theorem kept_iterate {it : Iteration} (orderly : Orderly (fun _ => True) s) (inTime : InTime s it)
    (ran : iterate s it = some t) : Orderly (it.last < ·) t := by
  obtain ⟨u, moved, ran⟩ := Option.bind_eq_some_iff.mp ran
  cases polled : it.polled with
  | failed timeout =>
    rw [polled] at ran
    have last : it.last = timeout.now := by
      rw [Iteration.last, polled]
      rfl
    have orderly' := orderly_step orderly (timely_of_always _ _) moved
    have released := every_httpMgmtRunTimeout (orderly'.tick timeout.now timeout.replies)
    obtain ⟨orderly'', now, kept⟩ := step_of_every (s := u) (o := timeout.calls .runTimeout) released ran
    refine Orderly.mono orderly'' fun c member => ?_
    have later := kept c member
    rw [now] at later
    exact last ▸ later
  | served revents slots =>
    have comes : ¬ it.polled.fails = true := by
      rw [polled]
      rintro ⟨⟩
    obtain ⟨listed, readings⟩ := inTime.resolve_left comes
    have begun : Orderly (it.last < ·) u :=
      orderly_step (o := it.run.calls .run) (Orderly.mono orderly listed) (readings _ List.mem_cons_self) moved
    rw [polled] at ran
    have polls : Orderly (it.last < ·) (poll revents u) := begun.calm (calm_of_same rfl)
    refine orderly_serve polls (fun reading member => ?_) ran
    exact readings reading (List.mem_cons_of_mem _ (by rwa [polled]))

theorem kept_turn {w v : Loop} {o : Turn} (orderly : Orderly (fun _ => True) w.mgmt) (inTime : AllInTime w o)
    (moved : turn w o = some v) :
    Orderly (fun _ => True) v.mgmt ∧ ∀ now, v.completed = some now → Orderly (now < ·) v.mgmt := by
  cases o with
  | iteration it =>
    obtain ⟨t, ran, rfl⟩ := Option.map_eq_some_iff.mp moved
    have kept := kept_iterate orderly inTime ran
    refine ⟨Orderly.mono kept fun _ _ => trivial, fun now completed => ?_⟩
    cases completed
    exact kept
  | outside o =>
    obtain ⟨t, ran, rfl⟩ := Option.map_eq_some_iff.mp moved
    exact ⟨orderly_step orderly (timely_of_always _ _) ran, by simp⟩

/-- In every run of the main loop whose iterations fail to poll or have no deadline come, no
context that is due is left after an iteration. -/
theorem deadlines_enforced {w : Loop} (reached : Reach turn AllInTime Opens w) {now : Int}
    (completed : w.completed = some now) : ∀ c ∈ w.mgmt.listTimeout, now < (w.mgmt.ctxs c).timeout := by
  let Inv (v : Loop) : Prop :=
    Orderly (fun _ => True) v.mgmt ∧ ∀ now, v.completed = some now → Orderly (now < ·) v.mgmt
  have begins (v : Loop) (opens : Opens v) : Inv v :=
    ⟨orderly_of_begins opens.1, fun _ completed => by cases opens.2.symm.trans completed⟩
  have turns (v : Loop) (o : Turn) (u : Loop) (kept : Inv v) (inTime : AllInTime v o) (moved : turn v o = some u) : Inv u :=
    kept_turn kept.1 inTime moved
  have kept : Inv w := reached.invariant begins turns
  exact (kept.2 now completed).1.deadlines

end

/-! A context whose host does not answer. -/

def openingDevice : Loop := ⟨initData [] [] 80 1024 3 0, none⟩

theorem httpBufCaches_pos : 0 < httpBufCaches := by decide

def firstBuf : BufId := ⟨0, httpBufCaches_pos⟩

/-- The connection to the server is polled in slot 1. -/
def connected : Turn := .outside ⟨.other (.addPollFd 4 pollIn), 1, [], []⟩

/-- The request comes into the first buffer, and its context is polled in slot 2. -/
def requestComes : Turn :=
  .iteration ⟨⟨1, [], []⟩, .served (fun slot => if slot = 1 then pollIn else 0)
    [none, some ⟨1, [⟨.receive Answering.requestFrame, ⟨1, [.value 5], [[firstBuf], [firstBuf]]⟩, rfl⟩], ⟨1, [], []⟩⟩, none]⟩

/-- The host is resolved and does not answer. -/
def connectsAt (now : Int) : Moment := ⟨now, [.value 0x0a000001, .fail .inProgress], []⟩

/-- No event comes until the end of the 10 ms that `poll` waits. -/
def quietAt (now : Int) : Turn := .iteration ⟨connectsAt now, .served (fun _ => 0) [none, none, none]⟩

instance (d : HttpMgmt) (it : Iteration) : Decidable (InTime d it) := instDecidableOr

instance (w : Loop) (o : Turn) : Decidable (AllInTime w o) :=
  match o with
  | .iteration it => inferInstanceAs (Decidable (InTime w.mgmt it))
  | .outside _ => inferInstanceAs (Decidable True)

def waitsAt (now : Int) (w : Loop) : Bool :=
  decide (w.completed = some now ∧ w.mgmt.listTimeout = [Answering.firstCtx] ∧
    (w.mgmt.ctxs Answering.firstCtx).timeout = 11)

theorem opens_openingDevice : Opens openingDevice := ⟨⟨[], [], 80, 1024, 3, 0, rfl⟩, rfl⟩

theorem waits_in_time :
    ((Test.decided AllInTime).run turn openingDevice [connected, requestComes, quietAt 2]).map (waitsAt 2) = some true := by
  decide +kernel

theorem deadlines_enforced_waiting : ∃ w : Loop, w.completed = some 2 ∧ w.mgmt.listTimeout = [Answering.firstCtx] ∧
    ∀ c ∈ w.mgmt.listTimeout, 2 < (w.mgmt.ctxs c).timeout := by
  obtain ⟨w, ran, passes⟩ := Option.map_eq_some_iff.mp waits_in_time
  obtain ⟨completed, listed, _⟩ := of_decide_eq_true passes
  have reached := Test.reach opens_openingDevice ran
  exact ⟨w, completed, listed, deadlines_enforced reached completed⟩

theorem waits_overdue : (run turn openingDevice [connected, requestComes, quietAt 2, quietAt 20]).map (waitsAt 20) = some true := by
  decide +kernel

/-- Nine seconds after its deadline the context is still there. -/
theorem deadline_passes : ¬ ∀ w, Reach turn (fun _ _ => True) Opens w → ∀ now, w.completed = some now →
    ∀ c ∈ w.mgmt.listTimeout, now < (w.mgmt.ctxs c).timeout := by
  intro always
  obtain ⟨w, ran, passes⟩ := Option.map_eq_some_iff.mp waits_overdue
  obtain ⟨completed, listed, timeout⟩ := of_decide_eq_true passes
  have later := always w (reach_of_free_run opens_openingDevice ran) 20 completed Answering.firstCtx
    (listed ▸ List.mem_cons_self)
  rw [timeout] at later
  exact absurd later (by decide)

end WebTunnel.Device.Deadlines
