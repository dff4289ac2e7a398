import WebTunnel.Device.Keeping
import WebTunnel.Device.Replying
import WebTunnel.Device.Resyncing

/-! Events of the server: a short one is collected in one buffer, however it is cut, and each
client is sent a copy of it; a long one is dropped. -/

namespace WebTunnel.Device.Broadcasting
set_option synthInstance.maxSize 10000
open Library.Bytes Library.Lists Library.Routines Library.Routines.Routine Function Device.Types Buffers Http
open Forward Tunnel Manager Frames Footprints Pool Receiving Reassembly Lengths Resyncing Replying Server.Wire

/-! The reception of a frame leaves the clients alone. -/

/-- The lists of the clients, and a pool that can be used. -/
structure Lists (lists : ClientId → Option (List BufId)) (w : DevState) : Prop where
  clients : ∀ k, w.rings.items (.clientWrite k) = lists k
  pool : ∃ free, w.rings.items .caches = some free

section
variable {lists : ClientId → Option (List BufId)}

instance (f : HttpMgmt → HttpMgmt) : Keeps (Lists lists) (modify f : DevM Unit) :=
  ⟨fun _ holds => ⟨holds.clients, holds.pool⟩⟩

instance (b : BufId) (info : BufInfo) : Keeps (Lists lists) (setBuf b info) := by
  unfold setBuf
  infer_instance

instance (f : HttpBuf → HttpBuf) : Keeps (Lists lists) (setPrepare f) := by
  unfold setPrepare
  infer_instance

instance (sync : Bool) : Keeps (Lists lists) (setSync sync) := by
  unfold setSync
  infer_instance

instance (b : BufId) (offset : Int) (bytes : List Byte) : Keeps (Lists lists) (memcpy b offset bytes) := by
  unfold memcpy
  infer_instance

instance (b : BufId) : Keeps (Lists lists) (listAdd b .caches) where
  kept w holds := by
    rw [listAdd, wp_perform]
    refine ⟨fun R done => ?_, fun _ => trivial⟩
    obtain ⟨l, _, _, items, _⟩ := Rings.add_effect done
    constructor
    · intro k
      rw [items, update_of_ne (by simp)]
      exact holds.clients k
    · rw [items, update_self]
      exact ⟨_, rfl⟩

instance (b : BufId) : Keeps (Lists lists) (listAddTail b .prepare) where
  kept w holds := by
    rw [listAddTail, wp_perform]
    refine ⟨fun R done => ?_, fun _ => trivial⟩
    obtain ⟨l, _, _, items, _⟩ := Rings.addTail_effect done
    constructor
    · intro k
      rw [items, update_of_ne (by simp)]
      exact holds.clients k
    · rw [items, update_of_ne (by simp)]
      exact holds.pool

instance : Keeps (Lists lists) (listSpliceInit .prepare .caches) where
  kept w holds := by
    rw [listSpliceInit, wp_perform]
    refine ⟨fun R done => ?_, fun _ => trivial⟩
    obtain ⟨la, lb, _, _, _, items, _⟩ := Rings.spliceInit_effect done
    constructor
    · intro k
      rw [items, update_of_ne (by simp), update_of_ne (by simp)]
      exact holds.clients k
    · rw [items, update_self]
      exact ⟨_, rfl⟩

instance : Keeps (Lists lists) allocBuf where
  kept w holds := by
    rw [allocBuf, wp_bind, wp_head]
    refine ⟨fun l found => ?_, fun _ => trivial⟩
    cases l with
    | nil => exact holds
    | cons b free =>
      have sits : w.rings.home b = some .caches := Rings.home_of_mem found List.mem_cons_self
      simp only [List.head?_cons]
      rw [wp_bind]
      refine wp_del_of_home found sits fun R items _ => ?_
      constructor
      · intro k
        rw [items, update_of_ne (by simp)]
        exact holds.clients k
      · rw [items, update_self]
        exact ⟨_, rfl⟩

instance (o : Option BufId) : Keeps (Lists lists) (freeBuf o) := by
  cases o <;> (unfold freeBuf; infer_instance)

instance : Keeps (Lists lists) releasePrepare := by
  unfold releasePrepare
  infer_instance

instance (b : BufId) : Keeps (Lists lists) (savePrepare b) := by
  unfold savePrepare
  infer_instance

instance (part : Option BufId) : Keeps (Lists lists) (prepareBuf part) := by
  cases part with
  | some b => exact keeps_pure _
  | none =>
    unfold prepareBuf
    refine keeps_next fun b => ?_
    cases b <;> infer_instance

instance (b : BufId) (buf : List Byte) : Keeps (Lists lists) (prepareFill b buf) := by
  unfold prepareFill
  refine keeps_next fun _ => keeps_next fun _ => keeps_next fun info => ?_
  dsimp only
  infer_instance

instance (part : Option BufId) (payload : List Byte) : Keeps (Lists lists) (prepareStore part payload) := by
  unfold prepareStore
  refine keeps_next fun b => ?_
  cases b with
  | none => infer_instance
  | some b =>
    refine keeps_next fun info => @keeps_ite _ _ _ _ _ _ _ _ _ _ _ _ _ (keeps_next fun _ => keeps_next fun b => ?_) _
    cases b <;> infer_instance

instance (buf : List Byte) : Keeps (Lists lists) (prepareHeader buf) := by
  unfold prepareHeader
  refine keeps_next fun d => @keeps_ite _ _ _ _ _ _ _ _ _ _ _ _ _ _ (@keeps_ite _ _ _ _ _ _ _ _ _ _ _ _ _ _ ?_)
  split
  · infer_instance
  · refine keeps_next fun _ => @keeps_ite _ _ _ _ _ _ _ _ _ _ _ _ _ _ (keeps_next fun _ => ?_)
    dsimp only
    infer_instance

instance (buf : List Byte) : Keeps (Lists lists) (collect buf) := by
  unfold collect
  refine keeps_next fun d => ?_
  dsimp only
  refine keeps_next fun _ => keeps_next fun payload => ?_
  cases payload <;> infer_instance

end

/-- The clients, the list of them and what is queued for them are the same, and the pool can be used. -/
structure Aloof (w v : DevState) : Prop where
  clients : v.data.clients = w.data.clients
  listClient : v.data.listClient = w.data.listClient
  lists : ∀ k, v.rings.items (.clientWrite k) = w.rings.items (.clientWrite k)
  pool : ∃ free, v.rings.items .caches = some free

theorem Aloof.trans {u v w : DevState} (first : Aloof w v) (second : Aloof v u) : Aloof w u where
  clients := second.clients.trans first.clients
  listClient := second.listClient.trans first.listClient
  lists k := (second.lists k).trans (first.lists k)
  pool := second.pool

theorem aloof_of_collect {w v : DevState} {buf : List Byte} {r : Received} (pool : ∃ free, w.rings.items .caches = some free)
    (ran : (collect buf).run w = .ok (r, v)) : Aloof w v := by
  have within : Within parserParts ∅ (collect buf) := inferInstance
  have keeps : Keeps (Lists fun k => w.rings.items (.clientWrite k)) (collect buf) := inferInstance
  have frame := wp_of_run ran (within.frame w)
  have kept := wp_of_run ran (keeps.kept w ⟨fun _ => rfl, pool⟩)
  constructor
  · funext k
    exact frame.client k (by simp [parserParts])
  · exact frame.clientList (by simp [parserParts])
  · exact kept.clients
  · exact kept.pool

/-! The fragments of a frame. -/

/-- Fragments are accepted, and no frame is complete with any of them. -/
def Accepted : DevState → List (List Byte) → DevState → Prop
  | w, [], v => v = w
  | w, buf :: rest, v => ∃ u, (collect buf).run w = .ok (.returned 0, u) ∧ Accepted u rest v

/-- Fragments are accepted, and a frame is complete with the last of them, not before. -/
def Completes (w : DevState) (frags : List (List Byte)) (v : DevState) : Prop :=
  ∃ earlier last u, frags = earlier ++ [last] ∧ Accepted w earlier u ∧ (collect last).run u = .ok (.complete, v)

section
variable {w u v : DevState} {buf : List Byte} {frags : List (List Byte)}

theorem Completes.cons (ran : (collect buf).run w = .ok (.returned 0, u)) (completes : Completes u frags v) :
    Completes w (buf :: frags) v := by
  obtain ⟨earlier, last, t, rfl, accepted, now⟩ := completes
  exact ⟨buf :: earlier, last, t, rfl, ⟨u, ran, accepted⟩, now⟩

theorem Completes.single (ran : (collect buf).run w = .ok (.complete, v)) : Completes w [buf] v :=
  ⟨[], buf, w, rfl, rfl, ran⟩

theorem Completes.aloof (completes : Completes w frags v) (pool : ∃ free, w.rings.items .caches = some free) : Aloof w v := by
  obtain ⟨earlier, last, u, -, accepted, now⟩ := completes
  induction earlier generalizing w with
  | nil =>
    cases accepted
    exact aloof_of_collect pool now
  | cons buf rest ih =>
    obtain ⟨t, ran, accepted⟩ := accepted
    have first := aloof_of_collect pool ran
    exact first.trans (ih first.pool accepted)

/-- An empty fragment changes nothing while a frame is under way. -/
theorem run_collect_nil (sync : w.data.syncPrepare = true) : (collect []).run w = .ok (.returned 0, w) := by
  have wp : Wp (collect []) (fun r v => r = .returned 0 ∧ v = w) (fun _ => False) w := by
    have small : ([] : List Byte).length < httpBufSize := by decide
    simp only [collect, prepareHeader, wp_bind, wp_data, wp_assert, sync, if_true, wp_pure, small, not_true_eq_false,
      false_implies, and_true, forall_const]
  obtain ⟨r, v, ran, rfl, rfl⟩ := wp_total.mp wp
  exact ran

/-- What a fragment of the payload leads to: `Under` holds while there is more to come, and `Done` when all of
it is there. -/
def Outcome (total : Nat) (Under Done : List Byte → DevState → Prop) (stored : List Byte) (r : Received) (v : DevState) :
    Prop :=
  if stored.length < total then r = .returned 0 ∧ Under stored v else r = .complete ∧ Done stored v

/-- How the parser gets on with the payload of a frame. -/
structure Steps (total : Nat) (Under Done : List Byte → DevState → Prop) : Prop where
  sync : ∀ stored w, Under stored w → w.data.syncPrepare = true
  step : ∀ stored buf w, Under stored w → buf ≠ [] → buf.length < httpBufSize → stored.length + buf.length ≤ total →
    Wp (prepareStore w.data.bufPrepare.curr buf) (Outcome total Under Done (stored ++ buf)) (fun _ => False) w

variable {total : Nat} {Under Done : List Byte → DevState → Prop} {stored : List Byte}

theorem Steps.collects (steps : Steps total Under Done) (under : Under stored w) (small : buf.length < httpBufSize)
    (within : stored.length + buf.length ≤ total) (part : stored.length < total) :
    Wp (collect buf) (Outcome total Under Done (stored ++ buf)) (fun _ => False) w := by
  have sync := steps.sync stored w under
  by_cases empty : buf = []
  · subst empty
    apply wp_total.mpr
    refine ⟨.returned 0, w, run_collect_nil sync, ?_⟩
    rw [List.append_nil, Outcome, if_pos part]
    exact ⟨rfl, under⟩
  · apply wp_collect_of_sync sync small empty
    exact steps.step stored buf w under empty small within

theorem eq_nil_of_flatten {l : List (List Byte)} (empty : l.flatten = []) (ends : l.getLast? ≠ some []) : l = [] := by
  rcases List.eq_nil_or_concat' l with none | ⟨init, last, rfl⟩
  · exact none
  · have bare : last = [] := List.flatten_eq_nil_iff.mp empty last (List.mem_append_right init List.mem_cons_self)
    rw [bare, List.getLast?_concat] at ends
    exact absurd rfl ends

/-- What a fragment leads to decides whether there are others. -/
theorem completes_of_outcome {r : Received} (ran : (collect buf).run w = .ok (r, v))
    (outcome : Outcome total Under Done stored r v) (whole : stored.length + frags.flatten.length = total)
    (ends : frags.getLast? ≠ some [])
    (rest : frags ≠ [] → stored.length < total → Under stored v →
      ∃ u, Completes v frags u ∧ Done (stored ++ frags.flatten) u) :
    ∃ u, Completes w (buf :: frags) u ∧ Done (stored ++ frags.flatten) u := by
  unfold Outcome at outcome
  split at outcome
  next more =>
    obtain ⟨rfl, under⟩ := outcome
    have some : frags ≠ [] := by
      rintro rfl
      simp only [List.flatten_nil, List.length_nil] at whole
      omega
    obtain ⟨u, completes, done⟩ := rest some more under
    exact ⟨u, completes.cons ran, done⟩
  next all =>
    obtain ⟨rfl, done⟩ := outcome
    have empty : frags.flatten = [] := List.eq_nil_of_length_eq_zero (by omega)
    cases eq_nil_of_flatten empty ends
    rw [List.flatten_nil, List.append_nil]
    exact ⟨v, .single ran, done⟩

theorem completes_of_steps (steps : Steps total Under Done) (under : Under stored w)
    (small : ∀ frag ∈ frags, frag.length < httpBufSize) (ends : frags.getLast? ≠ some []) (more : frags ≠ [])
    (part : stored.length < total) (whole : stored.length + frags.flatten.length = total) :
    ∃ v, Completes w frags v ∧ Done (stored ++ frags.flatten) v := by
  induction frags generalizing stored w with
  | nil => exact absurd rfl more
  | cons buf rest ih =>
    have small' : ∀ frag ∈ rest, frag.length < httpBufSize := fun frag member => small frag (List.mem_cons_of_mem buf member)
    have ends' : rest.getLast? ≠ some [] := by
      cases rest with
      | nil => simp
      | cons frag rest => rwa [List.getLast?_cons_cons] at ends
    rw [List.flatten_cons, List.length_append] at whole
    have step := steps.collects under (small buf List.mem_cons_self) (by omega) part
    obtain ⟨r, v, ran, outcome⟩ := wp_total.mp step
    have total' : (stored ++ buf).length + rest.flatten.length = total := by
      rw [List.length_append]
      omega
    rw [List.flatten_cons, ← List.append_assoc]
    apply completes_of_outcome ran outcome total' ends'
    intro some part' under
    exact ih under small' ends' some part' total'

/-- No frame is complete with any of fragments that are too few. -/
theorem not_completes_of_steps (steps : Steps total Under Done) (under : Under stored w)
    (small : ∀ frag ∈ frags, frag.length < httpBufSize) (few : stored.length + frags.flatten.length < total) :
    ¬ Completes w frags v := by
  induction frags generalizing stored w with
  | nil =>
    rintro ⟨earlier, last, u, split, -⟩
    simp at split
  | cons buf rest ih =>
    rintro ⟨earlier, last, u, split, accepted, now⟩
    rw [List.flatten_cons, List.length_append] at few
    have step := steps.collects under (small buf List.mem_cons_self) (by omega) (by omega)
    obtain ⟨r, t, ran, outcome⟩ := wp_total.mp step
    have part : (stored ++ buf).length < total := by
      rw [List.length_append]
      omega
    rw [Outcome, if_pos part] at outcome
    obtain ⟨rfl, under'⟩ := outcome
    cases earlier with
    | nil =>
      obtain ⟨rfl, _⟩ := List.cons.inj split
      cases accepted
      cases ran.symm.trans now
    | cons buf' earlier =>
      obtain ⟨rfl, split'⟩ := List.cons.inj split
      obtain ⟨t', ran', accepted'⟩ := accepted
      cases ran.symm.trans ran'
      have few' : (stored ++ buf).length + rest.flatten.length < total := by
        rw [List.length_append]
        omega
      refine ih under' (fun frag member => small frag (List.mem_cons_of_mem buf member)) few' ?_
      exact ⟨earlier, last, u, split', accepted', now⟩

end

/-! A frame that fits in one buffer is collected in one. -/

/-- Part of a frame lies in the buffer that is being filled, and nowhere else. -/
def InPart (header : FrameHeader) (need : Nat) (stored : List Byte) (w : DevState) : Prop :=
  ∃ part free, Collecting header stored [] part w ∧ w.rings.items .caches = some free ∧
    need + 1 ≤ free.length + part.toList.length

/-- All of a frame's payload lies in one buffer, and there are others for what is to be done with it. -/
def InOne (header : FrameHeader) (need : Nat) (payload : List Byte) (w : DevState) : Prop :=
  ∃ b free, Collecting header payload [b] none w ∧ w.rings.items .caches = some free ∧ need ≤ free.length

section
variable {header : FrameHeader} {need : Nat} {stored buf : List Byte} {b : BufId} {free : List BufId} {w : DevState}

theorem wp_prepareFill_inPart (collecting : Collecting header stored [] (some b) w)
    (pool : w.rings.items .caches = some free) (enough : need ≤ free.length)
    (short : header.length - httpCHeaderLen ≤ httpBufSize)
    (within : stored.length + buf.length ≤ header.length - httpCHeaderLen) :
    Wp (prepareFill b buf) (Outcome (header.length - httpCHeaderLen) (InPart header need) (InOne header need) (stored ++ buf))
      (fun _ => False) w := by
  have written := collecting.partBytes_length
  have all : stored = partBytes w.data (some b) := by rw [collecting.holds, contents, List.map_nil, List.flatten_nil, List.nil_append]
  have room : (w.data.bufs b).start + buf.length ≤ httpBufSize := by
    rw [← written, ← all]
    omega
  apply wp_post (wp_prepareFill collecting room within)
  intro r v result
  obtain ⟨same, outcome⟩ := result
  rw [Outcome, List.length_append]
  split at outcome
  next part =>
    rw [if_pos part]
    refine ⟨outcome.1, some b, free, outcome.2.1, same.trans pool, ?_⟩
    rw [Option.toList_some, List.length_singleton]
    omega
  next whole =>
    rw [if_neg whole]
    exact ⟨outcome.1, b, free, outcome.2, same.trans pool, enough⟩

theorem steps_inPart (short : header.length - httpCHeaderLen ≤ httpBufSize) :
    Steps (header.length - httpCHeaderLen) (InPart header need) (InOne header need) where
  sync := by
    intro stored w under
    obtain ⟨part, free, collecting, _⟩ := under
    exact collecting.sync
  step := by
    intro stored buf w under _ small within
    obtain ⟨part, free, collecting, pool, enough⟩ := under
    rw [collecting.curr, prepareStore, wp_bind]
    cases part with
    | none =>
      rw [Option.toList_none, List.length_nil] at enough
      obtain ⟨b, rest, rfl⟩ := List.exists_cons_of_length_pos (show 0 < free.length by omega)
      apply wp_post (wp_prepareBuf_none collecting pool)
      rintro found v ⟨rfl, now, left, empty⟩
      simp only [wp_bind, wp_getBuf, empty, wp_ite]
      rw [if_neg (by omega)]
      rw [List.length_cons] at enough
      exact wp_prepareFill_inPart now left (by omega) short within
    | some b =>
      rw [Option.toList_some, List.length_singleton] at enough
      have written := collecting.partBytes_length
      have all : stored = partBytes w.data (some b) := by
        rw [collecting.holds, contents, List.map_nil, List.flatten_nil, List.nil_append]
      rw [← all] at written
      rw [prepareBuf, wp_pure]
      simp only [wp_bind, wp_getBuf, wp_ite]
      rw [if_neg (by omega)]
      exact wp_prepareFill_inPart collecting pool (by omega) short within

theorem steps_underWay (allowed : header.length ≤ httpInMax) :
    Steps (header.length - httpCHeaderLen) (UnderWay header) (Complete header) where
  sync := by
    intro stored w under
    obtain ⟨saved, part, free, collecting, _⟩ := under
    exact collecting.sync
  step := by
    intro stored buf w under _ small within
    exact wp_prepareStore under rfl allowed small within

end

/-! The first fragment. -/

/-- An event of the server, cut behind its header; a fragment may be empty unless it is the last. -/
structure Event (seq : Nat) (payload first : List Byte) (rest : List (List Byte)) : Prop where
  short : seq < 65536
  full : payload ≠ []
  cut : first ++ rest.flatten = headerBytes httpCTunnelReq seq (payload.length + httpCHeaderLen) ++ payload
  whole : httpCHeaderLen ≤ first.length
  ends : rest.getLast? ≠ some []
  small : ∀ frag ∈ first :: rest, frag.length < httpBufSize

/-- The header in front of an event. -/
def eventHeader (seq : Nat) (payload : List Byte) : FrameHeader :=
  ⟨httpCTunnelReq, seq, payload.length + httpCHeaderLen⟩

/-- Nothing of a frame that was given up is in the way of the next one. -/
def Fresh (w : DevState) (first : List Byte) : Prop :=
  w.data.bufPrepare.curr = none ∨ first.length = httpCHeaderLen

section
variable {seq : Nat} {payload first : List Byte} {rest : List (List Byte)} {saved free : List BufId} {w : DevState}
variable {Under Done : List Byte → DevState → Prop}

theorem Event.split (event : Event seq payload first rest) : payload = first.drop httpCHeaderLen ++ rest.flatten := by
  have length : (headerBytes httpCTunnelReq seq (payload.length + httpCHeaderLen)).length = httpCHeaderLen :=
    headerBytes_length _ _ _
  have split := (cut_behind event.cut (by rw [length]; exact event.whole)).2
  rwa [length] at split

theorem Event.sizes (event : Event seq payload first rest) :
    (first.drop httpCHeaderLen).length + rest.flatten.length = payload.length := by
  rw [← List.length_append, ← event.split]

theorem Event.read (event : Event seq payload first rest) (allowed : payload.length + httpCHeaderLen ≤ httpInMax) :
    readHeader first = some (eventHeader seq payload) := by
  have length : (headerBytes httpCTunnelReq seq (payload.length + httpCHeaderLen)).length = httpCHeaderLen :=
    headerBytes_length _ _ _
  have front := (cut_behind event.cut (by rw [length]; exact event.whole)).1
  rw [front]
  exact readHeader_headerBytes (by decide) event.short (by simp only [httpInMax] at allowed; omega) _

theorem wp_collect_first (event : Event seq payload first rest) (allowed : payload.length + httpCHeaderLen ≤ httpInMax)
    (stalled : Stalled w) (hangs : w.rings.items .prepare = some saved) (pool : w.rings.items .caches = some free)
    (fresh : Fresh w first) (steps : Steps payload.length Under Done)
    (start : ∀ v, Collecting (eventHeader seq payload) [] [] none v →
      v.rings.items .caches = some (saved ++ w.data.bufPrepare.curr.toList ++ free) → Under [] v) :
    Wp (collect first) (Outcome payload.length Under Done (first.drop httpCHeaderLen)) (fun _ => False) w := by
  have read := event.read allowed
  have least : httpCHeaderLen ≤ (eventHeader seq payload).length := Nat.le_add_left _ _
  have sizes := event.sizes
  have positive : ([] : List Byte).length < payload.length := List.length_pos_iff.mpr event.full
  have small := event.small first List.mem_cons_self
  by_cases size : first.length = httpCHeaderLen
  · apply wp_collect_opens_bare stalled hangs pool size read least allowed
    intro v collecting caches
    have bare : first.drop httpCHeaderLen = [] := List.drop_eq_nil_iff.mpr size.le
    rw [bare, Outcome, if_pos positive]
    exact ⟨rfl, start v collecting caches⟩
  · have vacant : w.data.bufPrepare.curr = none := fresh.resolve_right size
    have idle : Idle w := ⟨stalled.sync, vacant, stalled.hangs, stalled.pool⟩
    apply wp_collect_opens idle hangs pool small event.whole read least allowed
    intro v collecting caches
    rw [if_neg size]
    have under : Under [] v := by
      apply start v collecting
      rw [caches, vacant, Option.toList_none, List.append_nil]
    have whole := event.whole
    have length : (first.drop httpCHeaderLen).length = first.length - httpCHeaderLen := List.length_drop
    have some : first.drop httpCHeaderLen ≠ [] := by
      apply List.ne_nil_of_length_pos
      omega
    have step := steps.step [] (first.drop httpCHeaderLen) v under some (by omega) (by rw [List.length_nil]; omega)
    rw [collecting.curr] at step
    exact step

/-- When a buffer is left over, what follows the header gets lost in it. -/
theorem wp_collect_of_left {b : BufId} (event : Event seq payload first rest)
    (allowed : payload.length + httpCHeaderLen ≤ httpInMax) (stalled : Stalled w)
    (hangs : w.rings.items .prepare = some saved) (pool : w.rings.items .caches = some free)
    (current : w.data.bufPrepare.curr = some b) (more : httpCHeaderLen < first.length) :
    Wp (collect first) (fun r v => r = .returned 0 ∧ Collecting (eventHeader seq payload) [] [] none v ∧
      v.rings.items .caches = some (saved ++ w.data.bufPrepare.curr.toList ++ free)) (fun _ => True) w := by
  have least : httpCHeaderLen ≤ (eventHeader seq payload).length := Nat.le_add_left _ _
  have allowed' : (eventHeader seq payload).length ≤ httpInMax := allowed
  have behind : first.drop httpCHeaderLen ≠ [] := fun none => absurd (List.drop_eq_nil_iff.mp none) (by omega)
  simp only [collect, prepareHeader, wp_bind, wp_data, wp_assert, wp_ite, stalled.sync, event.small first List.mem_cons_self,
    event.read allowed, not_true_eq_false, false_implies, and_true, forall_const, Bool.false_eq_true, if_false,
    Nat.not_lt.mpr more.le, Nat.not_lt.mpr allowed']
  refine wp_releasePrepare_of_away stalled.away hangs pool fun R items caches home => ?_
  have sits : R.home b = some .caches := home b current
  simp only [setSync, setPrepare, wp_modify, wp_pure, toInt32_of_allowed least allowed', behind, if_false]
  rw [current, prepareStore, prepareBuf, wp_bind, wp_pure]
  simp only [wp_bind, wp_getBuf, wp_ite]
  split
  next => exact wp_savePrepare_returns fun S away _ => by cases away.symm.trans sits
  next =>
    rw [prepareFill, wp_bind, wp_getBuf, wp_bind, wp_memcpy]
    refine ⟨fun _ => ?_, fun _ => trivial⟩
    simp only [wp_bind, wp_getBuf, wp_setBuf, wp_data, setBuf_bufs, setBuf_setBuf, setBuf_bufPrepare, wp_ite]
    split
    next => exact wp_savePrepare_returns fun S away _ => by cases away.symm.trans sits
    next =>
      refine ⟨rfl, ?_, by rw [caches, current]⟩
      constructor
      case hangs => exact items
      case len => simp [contents]
      case holds => simp [contents, partBytes]
      all_goals first | rfl | simp

theorem completes_of_fresh (event : Event seq payload first rest) (allowed : payload.length + httpCHeaderLen ≤ httpInMax)
    (stalled : Stalled w) (hangs : w.rings.items .prepare = some saved) (pool : w.rings.items .caches = some free)
    (fresh : Fresh w first) (steps : Steps payload.length Under Done)
    (start : ∀ v, Collecting (eventHeader seq payload) [] [] none v →
      v.rings.items .caches = some (saved ++ w.data.bufPrepare.curr.toList ++ free) → Under [] v) :
    ∃ u, Completes w (first :: rest) u ∧ Done payload u := by
  obtain ⟨r, v, ran, outcome⟩ := wp_total.mp (wp_collect_first event allowed stalled hangs pool fresh steps start)
  have result := completes_of_outcome ran outcome event.sizes event.ends fun more part under =>
    completes_of_steps steps under (fun frag member => event.small frag (List.mem_cons_of_mem first member)) event.ends more
      part event.sizes
  rwa [← event.split] at result

theorem not_completes_of_left {u : DevState} (event : Event seq payload first rest)
    (allowed : payload.length + httpCHeaderLen ≤ httpInMax) (stalled : Stalled w)
    (hangs : w.rings.items .prepare = some saved) (pool : w.rings.items .caches = some free) (left : ¬ Fresh w first)
    (steps : Steps payload.length Under Done)
    (start : ∀ v, Collecting (eventHeader seq payload) [] [] none v →
      v.rings.items .caches = some (saved ++ w.data.bufPrepare.curr.toList ++ free) → Under [] v) :
    ¬ Completes w (first :: rest) u := by
  rintro ⟨earlier, last, t, split, accepted, now⟩
  rw [Fresh, not_or] at left
  obtain ⟨b, current⟩ := Option.ne_none_iff_exists'.mp left.1
  have whole := event.whole
  have more : httpCHeaderLen < first.length := by omega
  have after := wp_collect_of_left event allowed stalled hangs pool current more
  cases earlier with
  | nil =>
    obtain ⟨rfl, _⟩ := List.cons.inj split
    cases accepted
    have result := wp_of_run now after
    cases result.1
  | cons buf earlier =>
    obtain ⟨rfl, split'⟩ := List.cons.inj split
    obtain ⟨v, ran, accepted'⟩ := accepted
    obtain ⟨_, collecting, caches⟩ := wp_of_run ran after
    have sizes := event.sizes
    have length : (first.drop httpCHeaderLen).length = first.length - httpCHeaderLen := List.length_drop
    have few : ([] : List Byte).length + rest.flatten.length < payload.length := by
      rw [List.length_nil]
      omega
    refine not_completes_of_steps (v := u) steps (start v collecting caches)
      (fun frag member => event.small frag (List.mem_cons_of_mem first member)) few ?_
    exact ⟨earlier, last, t, split', accepted', now⟩

end

/-! One copy for each client. -/

/-- What a client is sent for an event. -/
def eventBytes (client : TcpClientContext) (payload : List Byte) : List Byte :=
  clientHeader client.reqSeq payload.length httpCReq ++ payload

/-- Exactly one buffer was put in front of what is queued for a client, and it holds the event. -/
def Receives (payload : List Byte) (k : ClientId) (w v : DevState) : Prop :=
  ∃ b queue, w.rings.items (.clientWrite k) = some queue ∧ v.rings.items (.clientWrite k) = some (b :: queue) ∧
    (v.data.bufs b).start = 0 ∧ (v.data.bufs b).len = payload.length + httpCHeaderLen ∧
    (v.data.bufs b).buf.slice 0 (payload.length + httpCHeaderLen) = eventBytes (w.data.clients k) payload ∧
    told (eventBytes (w.data.clients k) payload) = payload.length + httpCHeaderLen

/-- The payload lies in the first prepare buffer. -/
structure Held (b : BufId) (payload : List Byte) (w : DevState) : Prop where
  sits : w.rings.home b = some .prepare
  total : w.data.bufPrepare.len = payload.length
  len : (w.data.bufs b).len = payload.length
  bytes : (w.data.bufs b).buf.slice 0 payload.length = payload
  fits : payload.length + httpCHeaderLen ≤ httpBufSize

/-- The clients in a list can be sent something. -/
structure Connected (l : List ClientId) (w : DevState) : Prop where
  distinct : l.Nodup
  queue : ∀ k ∈ l, ∃ queue, w.rings.items (.clientWrite k) = some queue
  pfd : ∀ k ∈ l, (w.data.clients k).pfd ≠ none

/-- What copies for the clients in a list leave as it was. -/
structure Beside (l : List ClientId) (w v : DevState) : Prop where
  prepare : v.rings.items .prepare = w.rings.items .prepare
  bufs : ∀ b, w.rings.home b ≠ some .caches → v.data.bufs b = w.data.bufs b
  away : ∀ b, w.rings.home b ≠ some .caches → v.rings.home b ≠ some .caches
  queues : ∀ k ∉ l, v.rings.items (.clientWrite k) = w.rings.items (.clientWrite k)
  clients : ∀ k ∉ l, v.data.clients k = w.data.clients k
  bufPrepare : v.data.bufPrepare = w.data.bufPrepare

section
variable {payload : List Byte} {b new : BufId} {free : List BufId} {k : ClientId} {l : List ClientId} {w v : DevState}

theorem told_eventBytes (client : TcpClientContext) (fits : payload.length + httpCHeaderLen ≤ httpBufSize) :
    told (eventBytes client payload) = payload.length + httpCHeaderLen := by
  have size : httpBufSize = 2048 := rfl
  have most : httpInMax = 20480 := rfl
  have width : httpCHeaderLen = 16 := rfl
  rw [eventBytes, told_clientHeader client.reqSeq httpCReq payload (Int.natCast_nonneg _) (by omega)]
  omega

/-- The header is written, and the payload behind it. -/
theorem slice_eventBytes (m : Mem) (client : TcpClientContext) :
    ((m.write 0 (clientHeader client.reqSeq payload.length httpCReq)).write httpCHeaderLen payload).slice 0
      (payload.length + httpCHeaderLen) = eventBytes client payload := by
  have width : (clientHeader client.reqSeq payload.length httpCReq).length = httpCHeaderLen := clientHeader_length _ _ _
  have front := Mem.slice_write m 0 (clientHeader client.reqSeq payload.length httpCReq)
  rw [width] at front
  rw [Nat.add_comm, slice_extend, front, eventBytes]

theorem wp_sendEvent {err : Fault → Prop} (held : Held b payload w) (pool : w.rings.items .caches = some (new :: free))
    (connected : Connected (k :: l) w) :
    Wp (sendEvent (some b) k) (fun _ v => Receives payload k w v ∧ Beside [k] w v ∧
      v.rings.items .caches = some free ∧ v.rings.home b = some .prepare) err w := by
  obtain ⟨queue, queued⟩ := connected.queue k List.mem_cons_self
  have size : httpBufSize = 2048 := rfl
  have room : bufRoom = 2052 := rfl
  have width : httpCHeaderLen = 16 := rfl
  have fits := held.fits
  have apart : b ≠ new := by
    rintro rfl
    cases held.sits.symm.trans (Rings.home_of_mem pool List.mem_cons_self)
  rw [sendEvent, wp_bind, wp_data, wp_bind, wp_getClient, wp_bind]
  refine wp_allocBuf_of_cons pool fun R items home => ?_
  rw [wp_bind, wp_deref]
  refine ⟨fun new' same => ?_, fun none => absurd none (Option.some_ne_none new)⟩
  obtain rfl := Option.some.inj same
  rw [held.total, wp_bind, wp_memcpy]
  refine ⟨fun _ => ?_, fun outside => absurd ⟨le_refl 0, by rw [clientHeader_length, room]; decide⟩ outside⟩
  rw [wp_bind, wp_deref]
  refine ⟨fun b' same => ?_, fun none => absurd none (Option.some_ne_none b)⟩
  obtain rfl := Option.some.inj same
  rw [wp_bind, wp_getBuf, wp_bind, wp_bytesAt]
  simp only [setBuf_bufs, setBuf_setBuf, setBuf_bufs_of_ne _ _ apart, held.len, Int.toNat_zero, Int.toNat_natCast, held.bytes]
  refine ⟨fun _ => ?_, fun outside => absurd ⟨le_refl 0, Int.natCast_nonneg _, by omega⟩ outside⟩
  rw [wp_bind, wp_memcpy]
  refine ⟨fun _ => ?_, fun outside => absurd ⟨Int.natCast_nonneg _, by omega⟩ outside⟩
  rw [wp_bind, wp_getBuf, wp_bind, wp_setBuf, wp_bind]
  simp only [setBuf_bufs, setBuf_setBuf, Int.toNat_natCast]
  have queued' : R.items (.clientWrite k) = some queue := by
    rw [items, update_of_ne (by simp)]
    exact queued
  refine wp_add_of_free (w := ⟨_, R⟩) queued' (by rw [home, update_self]) fun S items' home' => ?_
  have pfd : (w.data.clients k).pfd ≠ none := connected.pfd k List.mem_cons_self
  refine wp_clientToWrite pfd fun d bufs clients listClient tcpServer bufPrepare _ => ?_
  refine ⟨⟨new, queue, queued, ?_, ?_, ?_, ?_, told_eventBytes _ fits⟩, ⟨?_, ?_, ?_, ?_, ?_, bufPrepare⟩, ?_, ?_⟩
  · rw [items', update_self]
  · rw [bufs, setBuf_bufs]
  · rw [bufs, setBuf_bufs]
  · rw [bufs, setBuf_bufs]
    exact slice_eventBytes _ _
  · rw [items', update_of_ne (by simp), items, update_of_ne (by simp)]
  · intro b' outside
    have other : b' ≠ new := by
      rintro rfl
      exact outside (Rings.home_of_mem pool List.mem_cons_self)
    rw [bufs]
    exact setBuf_bufs_of_ne _ _ other
  · intro b' outside
    rw [home', home, update_idem]
    by_cases same : b' = new
    · rw [same, update_self]
      simp
    · rwa [update_of_ne same]
  · intro k' other
    rw [List.mem_singleton] at other
    rw [items', update_of_ne (by simp [other]), items, update_of_ne (by simp)]
  · intro k' other
    rw [List.mem_singleton] at other
    rw [clients]
    exact update_of_ne other _ _
  · rw [items', update_of_ne (by simp), items, update_self]
  · rw [home', update_of_ne apart, home, update_of_ne apart]
    exact held.sits

theorem Held.beside {u : DevState} (held : Held b payload w) (beside : Beside l w u)
    (sits : u.rings.home b = some .prepare) : Held b payload u := by
  have out : w.rings.home b ≠ some .caches := by rw [held.sits]; simp
  refine ⟨sits, ?_, ?_, ?_, held.fits⟩
  · rw [beside.bufPrepare, held.total]
  · rw [beside.bufs b out, held.len]
  · rw [beside.bufs b out, held.bytes]

theorem Connected.beside {u : DevState} (connected : Connected (k :: l) w) (beside : Beside [k] w u) : Connected l u := by
  obtain ⟨fresh, distinct⟩ := List.nodup_cons.mp connected.distinct
  have other : ∀ k' ∈ l, k' ∉ [k] := by
    intro k' member same
    exact fresh (List.mem_singleton.mp same ▸ member)
  refine ⟨distinct, ?_, ?_⟩
  · intro k' member
    rw [beside.queues k' (other k' member)]
    exact connected.queue k' (List.mem_cons_of_mem k member)
  · intro k' member
    rw [beside.clients k' (other k' member)]
    exact connected.pfd k' (List.mem_cons_of_mem k member)

/-- What a client has got stays as it is while others are sent theirs. -/
theorem Receives.beside {u : DevState} (receives : Receives payload k w u) (beside : Beside l u v) (other : k ∉ l) :
    Receives payload k w v := by
  obtain ⟨b, queue, before, after, start, len, bytes, length⟩ := receives
  have sits : u.rings.home b = some (.clientWrite k) := Rings.home_of_mem after List.mem_cons_self
  have same := beside.bufs b (by rw [sits]; simp)
  refine ⟨b, queue, before, ?_, ?_, ?_, ?_, length⟩
  · rw [beside.queues k other, after]
  · rw [same, start]
  · rw [same, len]
  · rw [same, bytes]

theorem Receives.behind {u : DevState} (beside : Beside l w u) (receives : Receives payload k u v) (other : k ∉ l) :
    Receives payload k w v := by
  unfold Receives at receives ⊢
  rwa [beside.queues k other, beside.clients k other] at receives

theorem Beside.trans {u : DevState} (first : Beside [k] w u) (second : Beside l u v) : Beside (k :: l) w v where
  prepare := second.prepare.trans first.prepare
  bufs b out := (second.bufs b (first.away b out)).trans (first.bufs b out)
  away b out := second.away b (first.away b out)
  queues k' out := by
    rw [List.mem_cons, not_or] at out
    rw [second.queues k' out.2, first.queues k' (by simpa using out.1)]
  clients k' out := by
    rw [List.mem_cons, not_or] at out
    rw [second.clients k' out.2, first.clients k' (by simpa using out.1)]
  bufPrepare := second.bufPrepare.trans first.bufPrepare

theorem wp_sendEvents {err : Fault → Prop} (held : Held b payload w) (pool : w.rings.items .caches = some free)
    (enough : l.length ≤ free.length) (connected : Connected l w) :
    Wp (l.forM (sendEvent (some b))) (fun _ v => (∀ k ∈ l, Receives payload k w v) ∧ Beside l w v ∧
      ∃ left, v.rings.items .caches = some left) err w := by
  induction l generalizing w free with
  | nil =>
    refine ⟨by simp, ⟨rfl, ?_, ?_, ?_, ?_, rfl⟩, free, pool⟩
    · exact fun _ _ => rfl
    · exact fun _ out => out
    · exact fun _ _ => rfl
    · exact fun _ _ => rfl
  | cons k rest ih =>
    cases free with
    | nil => simp at enough
    | cons new free =>
      change Wp (sendEvent (some b) k >>= fun _ => rest.forM (sendEvent (some b))) _ _ w
      rw [wp_bind]
      apply wp_post (wp_sendEvent held pool connected)
      intro _ u after
      obtain ⟨receives, beside, pool', sits⟩ := after
      obtain ⟨out, _⟩ := List.nodup_cons.mp connected.distinct
      apply wp_post (ih (held.beside beside sits) pool' (by simpa using enough) (connected.beside beside))
      intro _ v after
      obtain ⟨others, beside', left⟩ := after
      refine ⟨?_, beside.trans beside', left⟩
      rw [List.forall_mem_cons]
      constructor
      · exact receives.beside beside' out
      · intro k' member
        refine Receives.behind beside (others k' member) ?_
        rw [List.mem_singleton]
        rintro rfl
        exact out member

end

/-! What becomes of an event that was collected. -/

/-- The event is dropped: nothing is queued for a client, and the buffers that were prepared for it are back
in the pool. -/
structure Dropped (w s v : DevState) : Prop where
  queues : ∀ k, v.rings.items (.clientWrite k) = w.rings.items (.clientWrite k)
  prepare : v.rings.items .prepare = some []
  pool : ∃ saved free, s.rings.items .prepare = some saved ∧ s.rings.items .caches = some free ∧
    v.rings.items .caches = some (saved ++ free)

section
variable {seq need : Nat} {payload : List Byte} {saved free : List BufId} {b : BufId} {w : DevState}

theorem held_of_collecting (collecting : Collecting (eventHeader seq payload) payload [b] none w)
    (fits : payload.length + httpCHeaderLen ≤ httpBufSize) : Held b payload w := by
  have bytes : payload = (w.data.bufs b).buf.slice 0 (w.data.bufs b).len.toNat := by
    have holds := collecting.holds
    rwa [contents, List.map_singleton, List.flatten_singleton, partBytes, List.append_nil] at holds
  have length : payload.length = (w.data.bufs b).len.toNat := by
    have length := congrArg List.length bytes
    rwa [Mem.slice_length] at length
  have size := (collecting.sizes b List.mem_cons_self).1
  have total := collecting.len
  rw [contents, List.map_singleton, List.flatten_singleton, ← bytes] at total
  refine ⟨Rings.home_of_mem collecting.hangs List.mem_cons_self, total, ?_, ?_, fits⟩
  · omega
  · rw [length]
    exact bytes.symm

/-- An event in one buffer is sent to every client. -/
theorem wp_prepareProcess_inOne (collected : InOne (eventHeader seq payload) need payload w)
    (fits : payload.length + httpCHeaderLen ≤ httpBufSize) (connected : Connected w.data.listClient w)
    (enough : w.data.listClient.length ≤ need) :
    Wp prepareProcess (fun _ v => ∀ k ∈ w.data.listClient, Receives payload k w v) (fun _ => False) w := by
  obtain ⟨b, free, collecting, pool, room⟩ := collected
  have held := held_of_collecting collecting fits
  have type : w.data.bufPrepare.type = httpCTunnelReq := collecting.type
  have small : ¬ (w.data.bufPrepare.len < 0 ∨ (httpBufSize : Int) - httpCHeaderLen < w.data.bufPrepare.len) := by
    rw [held.total]
    omega
  have other : ¬ httpCTunnelReq = httpCHand := by decide
  rw [prepareProcess, wp_bind, wp_data, wp_bind, type, dispatch, if_neg other, if_pos rfl, wp_bind, processTunnelReq,
    wp_bind, wp_data, if_neg small, wp_bind, nextBufInfo, wp_head]
  refine ⟨fun l found => ?_, fun none => by cases collecting.hangs.symm.trans none⟩
  cases collecting.hangs.symm.trans found
  rw [List.head?_cons, wp_bind]
  apply wp_post (wp_sendEvents held pool (enough.trans room) connected)
  intro _ v after
  obtain ⟨receives, beside, left, pool'⟩ := after
  have curr : v.data.bufPrepare.curr = none := by rw [beside.bufPrepare, collecting.curr]
  rw [wp_bind]
  refine wp_releasePrepare_of_none curr (beside.prepare.trans collecting.hangs) pool' fun R items _ => ?_
  rw [wp_pure, wp_when]
  refine ⟨fun fails => absurd rfl fails, fun _ => ?_⟩
  intro k member
  obtain ⟨b', queue, before, after, holds⟩ := receives k member
  refine ⟨b', queue, before, ?_, holds⟩
  change R.items (.clientWrite k) = _
  rw [items, update_of_ne (by simp), update_of_ne (by simp), after]

/-- An event that is too long is sent to nobody. -/
theorem wp_prepareProcess_long (collected : Complete (eventHeader seq payload) payload w)
    (pool : w.rings.items .caches = some free) (long : httpBufSize < payload.length + httpCHeaderLen) :
    Wp prepareProcess (fun _ v => Dropped w w v) (fun _ => False) w := by
  obtain ⟨saved, collecting⟩ := collected
  have type : w.data.bufPrepare.type = httpCTunnelReq := collecting.type
  have all : payload = (contents w.data saved).flatten := by
    rw [collecting.holds, partBytes, List.append_nil]
  have total : w.data.bufPrepare.len = payload.length := by rw [collecting.len, ← all]
  have large : w.data.bufPrepare.len < 0 ∨ (httpBufSize : Int) - httpCHeaderLen < w.data.bufPrepare.len := by
    rw [total]
    omega
  have other : ¬ httpCTunnelReq = httpCHand := by decide
  rw [prepareProcess, wp_bind, wp_data, wp_bind, type, dispatch, if_neg other, if_pos rfl, wp_bind, processTunnelReq,
    wp_bind, wp_data, if_pos large, wp_pure, wp_when]
  refine ⟨fun _ => ?_, fun holds => absurd (by decide) holds⟩
  refine wp_releasePrepare_of_none collecting.curr collecting.hangs pool fun R items _ => ?_
  refine ⟨?_, ?_, saved, free, collecting.hangs, pool, ?_⟩
  · intro k
    change R.items (.clientWrite k) = _
    rw [items, update_of_ne (by simp), update_of_ne (by simp)]
  · change R.items .prepare = _
    rw [items, update_of_ne (by simp), update_self]
  · change R.items .caches = _
    rw [items, update_self]

end

/-! An event from end to end. -/

/-- The fragments are given to `http_mgmt_prepare`, which returns 0 each time. -/
def Fed : DevState → List (List Byte) → DevState → Prop
  | w, [], v => v = w
  | w, buf :: rest, v => ∃ u, (httpMgmtPrepare buf).run w = .ok (0, u) ∧ Fed u rest v

/-- The event is processed with its last fragment, in the state `s`: a short one is sent to every client, and
a long one to none. -/
def Broadcast (payload : List Byte) (w : DevState) (frags : List (List Byte)) : Prop :=
  ∃ s v, Completes w frags s ∧ prepareProcess.run s = .ok ((), v) ∧ Fed w frags v ∧
    (payload.length + httpCHeaderLen ≤ httpBufSize → ∀ k ∈ w.data.listClient, Receives payload k w v) ∧
    (httpBufSize < payload.length + httpCHeaderLen → Dropped w s v)

/-- There are buffers for the event and its copies, with those that are given back. -/
def Supplied (payload : List Byte) (w : DevState) : Prop :=
  ∃ saved free, w.rings.items .prepare = some saved ∧ w.rings.items .caches = some free ∧
    (payload.length + httpCHeaderLen ≤ httpBufSize →
      w.data.listClient.length + 1 ≤ saved.length + free.length + w.data.bufPrepare.curr.toList.length) ∧
    (httpBufSize < payload.length + httpCHeaderLen →
      frameBufs ≤ saved.length + free.length + w.data.bufPrepare.curr.toList.length)

section
variable {seq : Nat} {payload first : List Byte} {rest frags : List (List Byte)} {saved free : List BufId} {w v s : DevState}

theorem fed_of_completes (completes : Completes w frags s) (ran : prepareProcess.run s = .ok ((), v)) : Fed w frags v := by
  obtain ⟨earlier, last, u, rfl, accepted, now⟩ := completes
  induction earlier generalizing w with
  | nil =>
    cases accepted
    have processed : (httpMgmtPrepare last).run _ = (do prepareProcess; return 0 : DevM Int).run s := run_bind now
    rw [run_bind ran] at processed
    exact ⟨v, processed, rfl⟩
  | cons buf earlier ih =>
    obtain ⟨t, first, accepted⟩ := accepted
    exact ⟨t, run_bind first, ih accepted⟩

/-- In one buffer or in several, the parser gets on with the payload. -/
theorem exists_steps (seq : Nat) (allowed : payload.length + httpCHeaderLen ≤ httpInMax)
    (short : payload.length + httpCHeaderLen ≤ httpBufSize →
      w.data.listClient.length + 1 ≤ saved.length + free.length + w.data.bufPrepare.curr.toList.length)
    (long : httpBufSize < payload.length + httpCHeaderLen →
      frameBufs ≤ saved.length + free.length + w.data.bufPrepare.curr.toList.length) :
    ∃ Under Done, Steps payload.length Under Done ∧
      (∀ v, Collecting (eventHeader seq payload) [] [] none v →
        v.rings.items .caches = some (saved ++ w.data.bufPrepare.curr.toList ++ free) → Under [] v) ∧
      (payload.length + httpCHeaderLen ≤ httpBufSize →
        ∀ v, Done payload v → InOne (eventHeader seq payload) w.data.listClient.length payload v) ∧
      (httpBufSize < payload.length + httpCHeaderLen → ∀ v, Done payload v → Complete (eventHeader seq payload) payload v) := by
  have total : (eventHeader seq payload).length - httpCHeaderLen = payload.length := Nat.add_sub_cancel _ _
  have count : (saved ++ w.data.bufPrepare.curr.toList ++ free).length =
      saved.length + free.length + w.data.bufPrepare.curr.toList.length := by
    rw [List.length_append, List.length_append]
    omega
  rcases le_or_gt (payload.length + httpCHeaderLen) httpBufSize with fits | large
  · refine ⟨_, _, total ▸ steps_inPart (by omega), ?_, fun _ v done => done, fun large => by omega⟩
    intro v collecting caches
    refine ⟨none, _, collecting, caches, ?_⟩
    rw [count]
    exact short fits
  · refine ⟨_, _, total ▸ steps_underWay allowed, ?_, fun fits => by omega, fun _ v done => done⟩
    intro v collecting caches
    refine ⟨[], none, _, collecting, caches, ?_, by simp [partBytes], fun _ => rfl⟩
    rw [count]
    exact long large

theorem broadcast_of_fresh (event : Event seq payload first rest) (allowed : payload.length + httpCHeaderLen ≤ httpInMax)
    (stalled : Stalled w) (connected : Connected w.data.listClient w) (supplied : Supplied payload w)
    (fresh : Fresh w first) : Broadcast payload w (first :: rest) := by
  obtain ⟨saved, free, hangs, pool, short, long⟩ := supplied
  obtain ⟨Under, Done, steps, start, inOne, complete⟩ := exists_steps seq allowed short long
  obtain ⟨s, completes, done⟩ := completes_of_fresh event allowed stalled hangs pool fresh steps start
  have aloof := completes.aloof stalled.pool
  rcases le_or_gt (payload.length + httpCHeaderLen) httpBufSize with fits | large
  · have connected' : Connected s.data.listClient s := by
      rw [aloof.listClient]
      refine ⟨connected.distinct, ?_, ?_⟩
      · intro k member
        rw [aloof.lists k]
        exact connected.queue k member
      · intro k member
        rw [aloof.clients]
        exact connected.pfd k member
    have enough : s.data.listClient.length ≤ w.data.listClient.length := by rw [aloof.listClient]
    obtain ⟨_, v, ran, receives⟩ := wp_total.mp (wp_prepareProcess_inOne (inOne fits s done) fits connected' enough)
    refine ⟨s, v, completes, ran, fed_of_completes completes ran, fun _ k member => ?_, fun large => by omega⟩
    have got := receives k (by rwa [aloof.listClient])
    unfold Receives at got ⊢
    rwa [aloof.lists k, aloof.clients] at got
  · obtain ⟨free', pool'⟩ := aloof.pool
    obtain ⟨_, v, ran, dropped⟩ := wp_total.mp (wp_prepareProcess_long (complete large s done) pool' large)
    refine ⟨s, v, completes, ran, fed_of_completes completes ran, fun fits => by omega, fun _ => ?_⟩
    exact ⟨fun k => (dropped.queues k).trans (aloof.lists k), dropped.prepare, dropped.pool⟩

theorem fresh_of_broadcast (event : Event seq payload first rest) (allowed : payload.length + httpCHeaderLen ≤ httpInMax)
    (stalled : Stalled w) (supplied : Supplied payload w) (broadcast : Broadcast payload w (first :: rest)) : Fresh w first := by
  obtain ⟨s, _, completes, _⟩ := broadcast
  obtain ⟨saved, free, hangs, pool, short, long⟩ := supplied
  obtain ⟨Under, Done, steps, start, _⟩ := exists_steps seq allowed short long
  by_contra left
  exact not_completes_of_left event allowed stalled hangs pool left steps start completes

/-- An event is broadcast, however it is cut behind its header, if and only if no buffer is left over from a
frame that was given up, or the first fragment is the header and no more. -/
theorem broadcast_iff (event : Event seq payload first rest) (allowed : payload.length + httpCHeaderLen ≤ httpInMax)
    (stalled : Stalled w) (connected : Connected w.data.listClient w) (supplied : Supplied payload w) :
    Broadcast payload w (first :: rest) ↔ w.data.bufPrepare.curr = none ∨ first.length = httpCHeaderLen :=
  ⟨fresh_of_broadcast event allowed stalled supplied, broadcast_of_fresh event allowed stalled connected supplied⟩

end

/-- A device with some clients, which wait. -/
def withClients (l : List ClientId) : HttpMgmt :=
  let d := initData [] [] 80 1024 3 0
  { d with clients := fun k => { d.clients k with pfd := some k, idle := true }, listClient := l }

theorem exists_withClients {l : List ClientId} (distinct : l.Nodup) : ∃ R : Rings BufHead BufId,
    Idle ⟨withClients l, R⟩ ∧ Stocked ⟨withClients l, R⟩ ∧ Connected l ⟨withClients l, R⟩ := by
  obtain ⟨R, empty, others, _⟩ := exists_lists (l.map .clientWrite) (by simp [initRings])
  have pool : R.items .caches = some (List.finRange httpBufCaches).reverse := others .caches (by simp)
  have prepare : R.items .prepare = some [] := others .prepare (by simp)
  refine ⟨R, ⟨rfl, rfl, ⟨[], prepare⟩, ⟨_, pool⟩⟩, ⟨[], _, prepare, pool, ?_⟩, ⟨distinct, ?_, ?_⟩⟩
  · rw [List.length_reverse, List.length_finRange]
    decide
  · exact fun k member => ⟨[], empty _ (List.mem_map_of_mem member)⟩
  · exact fun k _ => Option.some_ne_none k

theorem stalled_of_idle {w : DevState} (idle : Idle w) : Stalled w := by
  refine ⟨idle.sync, idle.hangs, idle.pool, ?_, ?_⟩
  · intro b curr
    cases idle.curr.symm.trans curr
  · intro b curr
    cases idle.curr.symm.trans curr

theorem supplied_of_replenished {payload : List Byte} {w : DevState} (replenished : Replenished w)
    (few : w.data.listClient.length < frameBufs) : Supplied payload w := by
  obtain ⟨saved, free, hangs, pool, enough⟩ := replenished
  exact ⟨saved, free, hangs, pool, fun _ => by omega, fun _ => enough⟩

/-- An event in two fragments. -/
theorem event_hello : Event 7 (text "hello") (headerBytes httpCTunnelReq 7 21 ++ text "he") [text "llo"] := by
  have size : (headerBytes httpCTunnelReq 7 21 ++ text "he").length = 18 := by
    rw [List.length_append, headerBytes_length]
    rfl
  refine ⟨by decide, by decide, ?_, ?_, by decide, ?_⟩
  · rw [List.append_assoc]
    rfl
  · rw [size]
    decide
  · intro frag member
    rcases List.mem_pair.mp member with rfl | rfl
    · rw [size]
      decide
    · decide

theorem broadcast_iff_hello : ∃ w : DevState, w.data.listClient = [0, 1] ∧
    Broadcast (text "hello") w [headerBytes httpCTunnelReq 7 21 ++ text "he", text "llo"] := by
  obtain ⟨R, idle, ⟨saved, free, hangs, pool, enough⟩, connected⟩ := @exists_withClients [0, 1] (by decide)
  have replenished : Replenished ⟨withClients [0, 1], R⟩ := ⟨saved, free, hangs, pool, enough⟩
  exact ⟨⟨withClients [0, 1], R⟩, rfl, (broadcast_iff event_hello (by decide) (stalled_of_idle idle) connected
    (supplied_of_replenished replenished (show 2 < frameBufs by decide))).mpr (.inl rfl)⟩

/-- An event of one byte in one fragment. -/
theorem event_byte : Event 7 [0x62] (headerBytes httpCTunnelReq 7 17 ++ [0x62]) [] := by
  have size : (headerBytes httpCTunnelReq 7 17 ++ [0x62]).length = 17 := by
    rw [List.length_append, headerBytes_length]
    rfl
  refine ⟨by decide, by decide, List.append_nil _, ?_, by decide, ?_⟩
  · rw [size]
    decide
  · intro frag member
    rw [List.mem_singleton.mp member, size]
    decide

/-- An event is not broadcast after a frame that was given up with a byte of its payload. -/
theorem left_over_garbles :
    ¬ ∀ (seq : Nat) (payload first : List Byte) (rest : List (List Byte)) (w : DevState),
      Event seq payload first rest → payload.length + httpCHeaderLen ≤ httpInMax → Stalled w →
      Connected w.data.listClient w → Supplied payload w → Broadcast payload w (first :: rest) := by
  intro always
  obtain ⟨R, idle, stocked, connected⟩ := exists_withClients (List.nodup_singleton 0)
  obtain ⟨r, v, b, ran, current, stalled, replenished⟩ := exists_stalled_of_idle idle stocked
  have aloof := aloof_of_collect idle.pool ran
  have clients : (unsync v).data.listClient = [0] := aloof.listClient
  have connected' : Connected (unsync v).data.listClient (unsync v) := by
    rw [clients]
    refine ⟨connected.distinct, ?_, ?_⟩
    · intro k member
      obtain ⟨queue, queued⟩ := connected.queue k member
      exact ⟨queue, (aloof.lists k).trans queued⟩
    · intro k member
      have same : (unsync v).data.clients = (withClients [0]).clients := aloof.clients
      rw [same]
      exact connected.pfd k member
  have supplied := @supplied_of_replenished [0x62] _ replenished (by rw [clients]; decide)
  have broadcast := always 7 [0x62] _ [] (unsync v) event_byte (by decide) stalled connected' supplied
  have fresh := fresh_of_broadcast event_byte (by decide) stalled supplied broadcast
  have left : (unsync v).data.bufPrepare.curr = some b := current
  rcases fresh with vacant | bare
  · cases vacant.symm.trans left
  · rw [List.length_append, headerBytes_length] at bare
    cases bare

end WebTunnel.Device.Broadcasting
