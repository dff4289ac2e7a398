import Mathlib.Data.Set.Basic
import WebTunnel.Device.Manager

/-! What a routine leaves alone: the parts of the manager it does not change, the lists it
adds no buffer to, and the kinds of acts it does not do. -/

namespace WebTunnel.Device.Frames
open Library.Bytes Library.Lists Library.Routines Library.Routines.Routine Function Device.Types Buffers

/-- A part of the manager's state. Buffers can be taken off any list; `fill` stands for
adding some to the list of a head. -/
inductive Part where
  | ctx (c : CtxId)
  | client (k : ClientId)
  | forward (f : FwdId)
  | schedule
  | polls
  | prepare
  | sync
  | queue
  | shake
  | server
  | clientList
  | clientCount
  | forwardList
  | forwardCount
  | alive
  | fill (h : BufHead)

/-- The lists of the parser and of the pool, which hang from their heads from the start to the end. -/
def Lasting (h : BufHead) : Prop := h = .caches ∨ h = .prepare

/-- The other lists, whose heads may be left dangling. -/
class Passing (h : BufHead) : Prop where
  passes : ¬ Lasting h

/-- What two states have in common when only the given parts were changed and only the given
acts were done in between. -/
structure Frame (parts : Set Part) (acts : Set Act) (w v : DevState) : Prop where
  ctx : ∀ c, .ctx c ∉ parts → v.data.ctxs c = w.data.ctxs c
  client : ∀ k, .client k ∉ parts → v.data.clients k = w.data.clients k
  forward : ∀ f, .forward f ∉ parts → v.data.forwards f = w.data.forwards f
  schedule : .schedule ∉ parts → v.data.listReady = w.data.listReady ∧
    v.data.running = w.data.running ∧ v.data.readyLen = w.data.readyLen ∧
    v.data.listTimeout = w.data.listTimeout ∧ v.data.ctxCaches = w.data.ctxCaches
  polls : .polls ∉ parts → v.data.pollfds = w.data.pollfds ∧ v.data.fdLookup = w.data.fdLookup ∧
    v.data.countPollfds = w.data.countPollfds ∧ v.data.httpLookup = w.data.httpLookup
  prepare : .prepare ∉ parts → v.data.bufPrepare = w.data.bufPrepare
  sync : .sync ∉ parts → v.data.syncPrepare = w.data.syncPrepare ∧ v.data.syncTime = w.data.syncTime
  queue : .queue ∉ parts → v.data.bufToserver = w.data.bufToserver ∧ v.data.toserver = w.data.toserver
  shake : .shake ∉ parts → v.data.shakehand = w.data.shakehand ∧ v.data.clientId = w.data.clientId
  server : .server ∉ parts → v.data.tcpServer = w.data.tcpServer
  clientList : .clientList ∉ parts → v.data.listClient = w.data.listClient
  clientCount : .clientCount ∉ parts → v.data.nextClient = w.data.nextClient
  forwardList : .forwardList ∉ parts → v.data.listForward = w.data.listForward ∧
    v.data.lenForward = w.data.lenForward
  forwardCount : .forwardCount ∉ parts → v.data.nextForward = w.data.nextForward
  alive : .alive ∉ parts → v.data.lastAliveTime = w.data.lastAliveTime
  fixed : v.data.maxFds = w.data.maxFds ∧ v.data.username = w.data.username ∧
    v.data.localHost = w.data.localHost ∧ v.data.localPort = w.data.localPort ∧ v.data.now = w.data.now
  filled : ∀ h, .fill h ∉ parts → ∀ l, v.rings.items h = some l → ∀ b ∈ l, w.rings.home b = some h
  lasts : ∀ h, Lasting h → w.rings.items h ≠ none → v.rings.items h ≠ none
  done : ∃ new, v.data.acts = new ++ w.data.acts ∧ ∀ act ∈ new, act ∈ acts

namespace Frame
variable {parts parts' : Set Part} {acts acts' : Set Act} {u v w : DevState}

theorem refl (w : DevState) : Frame parts acts w w := by
  constructor
  case filled => exact fun h _ l found b member => Rings.home_of_mem found member
  case done => exact ⟨[], rfl, by simp⟩
  all_goals simp

theorem trans (first : Frame parts acts w v) (second : Frame parts acts v u) : Frame parts acts w u where
  ctx c out := (second.ctx c out).trans (first.ctx c out)
  client k out := (second.client k out).trans (first.client k out)
  forward f out := (second.forward f out).trans (first.forward f out)
  schedule out := by
    have a := first.schedule out
    have b := second.schedule out
    exact ⟨b.1.trans a.1, b.2.1.trans a.2.1, b.2.2.1.trans a.2.2.1, b.2.2.2.1.trans a.2.2.2.1,
      b.2.2.2.2.trans a.2.2.2.2⟩
  polls out := by
    have a := first.polls out
    have b := second.polls out
    exact ⟨b.1.trans a.1, b.2.1.trans a.2.1, b.2.2.1.trans a.2.2.1, b.2.2.2.trans a.2.2.2⟩
  prepare out := (second.prepare out).trans (first.prepare out)
  sync out := ⟨(second.sync out).1.trans (first.sync out).1, (second.sync out).2.trans (first.sync out).2⟩
  queue out := ⟨(second.queue out).1.trans (first.queue out).1, (second.queue out).2.trans (first.queue out).2⟩
  shake out := ⟨(second.shake out).1.trans (first.shake out).1, (second.shake out).2.trans (first.shake out).2⟩
  server out := (second.server out).trans (first.server out)
  clientList out := (second.clientList out).trans (first.clientList out)
  clientCount out := (second.clientCount out).trans (first.clientCount out)
  forwardList out := ⟨(second.forwardList out).1.trans (first.forwardList out).1,
    (second.forwardList out).2.trans (first.forwardList out).2⟩
  forwardCount out := (second.forwardCount out).trans (first.forwardCount out)
  alive out := (second.alive out).trans (first.alive out)
  fixed := by
    have a := first.fixed
    have b := second.fixed
    exact ⟨b.1.trans a.1, b.2.1.trans a.2.1, b.2.2.1.trans a.2.2.1, b.2.2.2.1.trans a.2.2.2.1,
      b.2.2.2.2.trans a.2.2.2.2⟩
  filled h out l found b member := by
    obtain ⟨l', found', member'⟩ := (v.rings.linked b h).mp (second.filled h out l found b member)
    exact first.filled h out l' found' b member'
  lasts h lasting hangs := second.lasts h lasting (first.lasts h lasting hangs)
  done := by
    obtain ⟨new, same, only⟩ := first.done
    obtain ⟨new', same', only'⟩ := second.done
    refine ⟨new' ++ new, by rw [same', same, List.append_assoc], fun act member => ?_⟩
    rcases List.mem_append.mp member with later | earlier
    · exact only' act later
    · exact only act earlier

theorem mono (frame : Frame parts acts w v) (more : parts ⊆ parts') (more' : acts ⊆ acts') :
    Frame parts' acts' w v where
  ctx c out := frame.ctx c fun member => out (more member)
  client k out := frame.client k fun member => out (more member)
  forward f out := frame.forward f fun member => out (more member)
  schedule out := frame.schedule fun member => out (more member)
  polls out := frame.polls fun member => out (more member)
  prepare out := frame.prepare fun member => out (more member)
  sync out := frame.sync fun member => out (more member)
  queue out := frame.queue fun member => out (more member)
  shake out := frame.shake fun member => out (more member)
  server out := frame.server fun member => out (more member)
  clientList out := frame.clientList fun member => out (more member)
  clientCount out := frame.clientCount fun member => out (more member)
  forwardList out := frame.forwardList fun member => out (more member)
  forwardCount out := frame.forwardCount fun member => out (more member)
  alive out := frame.alive fun member => out (more member)
  fixed := frame.fixed
  filled h out := frame.filled h fun member => out (more member)
  lasts := frame.lasts
  done := by
    obtain ⟨new, same, only⟩ := frame.done
    exact ⟨new, same, fun act member => more' (only act member)⟩

end Frame

/-- A routine that, where it returns, has changed the given parts only and done the given
acts only. -/
class Within {α : Type} (parts : Set Part) (acts : Set Act) (code : DevM α) : Prop where
  frame : ∀ w, Wp code (fun _ v => Frame parts acts w v) (fun _ => True) w

/-- Something that may be changed or done. -/
class Allows {ι : Type} (s : Set ι) (i : ι) : Prop where
  allowed : i ∈ s

export Allows (allowed)

instance allows_univ {ι : Type} (i : ι) : Allows Set.univ i := ⟨trivial⟩

section
variable {α β : Type} {parts parts' : Set Part} {acts acts' : Set Act}

theorem Within.mono {code : DevM α} (within : Within parts acts code) (more : parts ⊆ parts')
    (more' : acts ⊆ acts') : Within parts' acts' code :=
  ⟨fun w => wp_post (within.frame w) fun _ _ frame => frame.mono more more'⟩

/-- A routine keeps what does not depend on the parts it changes. -/
theorem keeps_of_within {P : DevState → Prop} {code : DevM α} (within : Within parts acts code)
    (framed : ∀ w v, Frame parts acts w v → P w → P v) : Keeps P code :=
  ⟨fun w holds => wp_post (within.frame w) fun _ v frame => framed w v frame holds⟩

/-- A routine that changes a part that may be changed, in a way that its frame shows. -/
theorem within_modify {f : HttpMgmt → HttpMgmt}
    (frame : ∀ w : DevState, Frame parts acts w { w with data := f w.data }) :
    Within parts acts (modify f) := ⟨frame⟩

instance within_pure (a : α) : Within parts acts (pure a) := ⟨Frame.refl⟩

instance within_ret (a : α) : Within parts acts (.ret a) := ⟨Frame.refl⟩

instance within_stop (e : Fault) : Within parts acts (.stop e : DevM α) := ⟨fun _ => trivial⟩

instance within_bind {code : DevM α} {next : α → DevM β} [first : Within parts acts code]
    [second : ∀ a, Within parts acts (next a)] : Within parts acts (code >>= next) where
  frame w := by
    rw [wp_bind]
    exact wp_post (first.frame w) fun a v frame =>
      wp_post ((second a).frame v) fun _ _ frame' => frame.trans frame'

/-- The first step is as it should be, and so is whatever follows it. -/
theorem within_next {code : DevM α} {next : α → DevM β} [first : Within parts acts code]
    (second : ∀ a, Within parts acts (next a)) : Within parts acts (code >>= next) := within_bind

instance within_ite {p : Prop} [Decidable p] {code other : DevM α} [yes : Within parts acts code]
    [no : Within parts acts other] : Within parts acts (if p then code else other) := by
  split
  · exact yes
  · exact no

instance within_when {p : Prop} [Decidable p] {code : DevM Unit} [yes : Within parts acts code] :
    Within parts acts (when p code) := within_ite

instance within_demand (p : Prop) [Decidable p] (e : Fault) : Within parts acts (demand p e : DevM Unit) :=
  within_ite

instance within_forM {l : List β} {body : β → DevM Unit} [each : ∀ b, Within parts acts (body b)] :
    Within parts acts (l.forM body) := by
  induction l with
  | nil => exact within_pure ()
  | cons b rest ih => exact within_bind

instance within_data : Within parts acts data := ⟨Frame.refl⟩

instance within_head (h : BufHead) : Within parts acts (head h) where
  frame w := (wp_head h _).mpr ⟨fun _ _ => Frame.refl w, fun _ => trivial⟩

instance within_items (h : BufHead) : Within parts acts (items h) where
  frame w := (wp_items h _).mpr ⟨fun _ _ => Frame.refl w, fun _ => trivial⟩

/-- Where a buffer comes to a list, buffers were allowed to be added there. -/
theorem frame_rings {w : DevState} {R : Rings BufHead BufId}
    (arrived : ∀ b h, R.home b = some h → w.rings.home b = some h ∨ .fill h ∈ parts)
    (lasts : ∀ h, Lasting h → w.rings.items h ≠ none → R.items h ≠ none) :
    Frame parts acts w { w with rings := R } := by
  have frame : Frame parts acts w w := Frame.refl w
  refine { frame with filled := fun h out l found b member => ?_, lasts := lasts }
  exact (arrived b h (Rings.home_of_mem found member)).resolve_right out

/-! Lists. -/

instance (c : CtxId) : Passing (.readTodo c) := ⟨by simp [Lasting]⟩
instance (c : CtxId) : Passing (.writeTodo c) := ⟨by simp [Lasting]⟩
instance (k : ClientId) : Passing (.clientRead k) := ⟨by simp [Lasting]⟩
instance (k : ClientId) : Passing (.clientWrite k) := ⟨by simp [Lasting]⟩
instance (f : FwdId) : Passing (.fwdWrite f) := ⟨by simp [Lasting]⟩
instance : Passing .chunk := ⟨by simp [Lasting]⟩

/-- A list that is put in another's place is initialised. -/
theorem hangs_update {items : BufHead → Option (List BufId)} {l : List BufId} {h h' : BufHead} (hangs : items h ≠ none) :
    update items h' (some l) h ≠ none := by
  by_cases same : h = h'
  · subst same
    simp
  · rwa [update_of_ne same]

/-- The ways to hang one buffer on a list. -/
theorem frame_hung {w : DevState} {R : Rings BufHead BufId} {b : BufId} {h : BufHead} {l : List BufId}
    (filled : .fill h ∈ parts) (items : R.items = update w.rings.items h (some l))
    (home : R.home = update w.rings.home b (some h)) :
    Frame parts acts w { w with rings := R } := by
  refine frame_rings (fun b' h' sits => ?_) fun h' _ hangs => items ▸ hangs_update hangs
  rw [home] at sits
  by_cases same : b' = b
  · subst same
    rw [update_self] at sits
    cases sits
    exact .inr filled
  · exact .inl (by rwa [update_of_ne same] at sits)

instance within_listAdd (b : BufId) (h : BufHead) [Allows parts (.fill h)] : Within parts acts (listAdd b h) where
  frame w := by
    refine (wp_perform _ _).mpr ⟨fun R done => ?_, fun _ => trivial⟩
    obtain ⟨l, _, _, items, home⟩ := Rings.add_effect done
    exact frame_hung allowed items home

instance within_listAddTail (b : BufId) (h : BufHead) [Allows parts (.fill h)] :
    Within parts acts (listAddTail b h) where
  frame w := by
    refine (wp_perform _ _).mpr ⟨fun R done => ?_, fun _ => trivial⟩
    obtain ⟨l, _, _, items, home⟩ := Rings.addTail_effect done
    exact frame_hung allowed items home

instance within_listDel (b : BufId) : Within parts acts (listDel b) where
  frame w := by
    refine (wp_perform _ _).mpr ⟨fun R done => ?_, fun _ => trivial⟩
    obtain ⟨h, l, _, _, items, home⟩ := Rings.del_effect done
    refine frame_rings (fun b' h' sits => ?_) fun h' _ hangs => items ▸ hangs_update hangs
    rw [home] at sits
    by_cases same : b' = b
    · subst same
      rw [update_self] at sits
      cases sits
    · exact .inl (by rwa [update_of_ne same] at sits)

/-- The ways to splice move buffers to one list. -/
theorem frame_joined {w : DevState} {R : Rings BufHead BufId} {h : BufHead} {moved : List BufId}
    (filled : .fill h ∈ parts) (home : R.home = fun b => if b ∈ moved then some h else w.rings.home b)
    (lasts : ∀ h, Lasting h → w.rings.items h ≠ none → R.items h ≠ none) :
    Frame parts acts w { w with rings := R } := by
  refine frame_rings (fun b h' sits => ?_) lasts
  simp only [home] at sits
  split at sits
  · cases sits
    exact .inr filled
  · exact .inl sits

instance within_listSplice (a h : BufHead) [passing : Passing a] [Allows parts (.fill h)] :
    Within parts acts (listSplice a h) where
  frame w := by
    refine (wp_perform _ _).mpr ⟨fun R done => ?_, fun _ => trivial⟩
    obtain ⟨la, lb, _, _, _, items, home⟩ := Rings.splice_effect done
    refine frame_joined allowed home fun h' lasting hangs => items ▸ hangs_update ?_
    have other : h' ≠ a := fun same => passing.passes (same ▸ lasting)
    rwa [update_of_ne other]

instance within_listSpliceInit (a h : BufHead) [Allows parts (.fill h)] :
    Within parts acts (listSpliceInit a h) where
  frame w := by
    refine (wp_perform _ _).mpr ⟨fun R done => ?_, fun _ => trivial⟩
    obtain ⟨la, lb, _, _, _, items, home⟩ := Rings.spliceInit_effect done
    exact frame_joined allowed home fun h' _ hangs => items ▸ hangs_update (hangs_update hangs)

instance within_listSpliceTailInit (a h : BufHead) [Allows parts (.fill h)] :
    Within parts acts (listSpliceTailInit a h) where
  frame w := by
    refine (wp_perform _ _).mpr ⟨fun R done => ?_, fun _ => trivial⟩
    obtain ⟨la, lb, _, _, _, items, home⟩ := Rings.spliceTailInit_effect done
    exact frame_joined allowed home fun h' _ hangs => items ▸ hangs_update (hangs_update hangs)

instance within_initListHead (h : BufHead) : Within parts acts (initListHead h) where
  frame w := by
    refine (wp_perform _ _).mpr ⟨fun R done => ?_, fun _ => trivial⟩
    obtain ⟨_, items, home⟩ := init_effect done
    exact frame_rings (fun b h' sits => .inl (home ▸ sits)) fun h' _ hangs => items ▸ hangs_update hangs

instance within_wipe (h : BufHead) [passing : Passing h] : Within parts acts (perform (.wipe h)) where
  frame w := by
    refine (wp_perform _ _).mpr ⟨fun R done => ?_, fun _ => trivial⟩
    obtain ⟨_, items, home⟩ := wipe_effect done
    refine frame_rings (fun b h' sits => .inl (home ▸ sits)) fun h' lasting hangs => ?_
    have other : h' ≠ h := fun same => passing.passes (same ▸ lasting)
    rwa [items, update_of_ne other]

/-! Data. -/

instance within_setBuf (b : BufId) (info : BufInfo) : Within parts acts (setBuf b info) :=
  within_modify fun w => { Frame.refl w with }

instance within_setCtx (c : CtxId) [Allows parts (.ctx c)] (ctx : HttpContext) :
    Within parts acts (setCtx c ctx) := by
  refine within_modify fun w => { Frame.refl w with ctx := fun c' out => ?_ }
  have other : c' ≠ c := fun same => out (same ▸ allowed)
  exact update_of_ne other _ _

instance within_setClient (k : ClientId) [Allows parts (.client k)] (client : TcpClientContext) :
    Within parts acts (setClient k client) := by
  refine within_modify fun w => { Frame.refl w with client := fun k' out => ?_ }
  have other : k' ≠ k := fun same => out (same ▸ allowed)
  exact update_of_ne other _ _

instance within_setForward (f : FwdId) [Allows parts (.forward f)] (fwd : TcpForwardContext) :
    Within parts acts (setForward f fwd) := by
  refine within_modify fun w => { Frame.refl w with forward := fun f' out => ?_ }
  have other : f' ≠ f := fun same => out (same ▸ allowed)
  exact update_of_ne other _ _

instance within_note (act : Act) [permitted : Allows acts act] : Within parts acts (note act) := by
  refine within_modify fun w => ?_
  have frame : Frame parts acts w w := Frame.refl w
  refine { frame with done := ⟨[act], rfl, fun act' member => ?_⟩ }
  rw [List.mem_singleton.mp member]
  exact permitted.allowed

instance within_setPrepare (f : HttpBuf → HttpBuf) [Allows parts .prepare] : Within parts acts (setPrepare f) :=
  within_modify fun w => { Frame.refl w with prepare := fun out => absurd allowed out }

instance within_setToserver (f : HttpBuf → HttpBuf) [Allows parts .queue] : Within parts acts (setToserver f) :=
  within_modify fun w => { Frame.refl w with queue := fun out => absurd allowed out }

/-- A change of the lists of contexts, and of their counts. -/
instance within_schedule [Allows parts .schedule] (listReady : HttpMgmt → Int → List CtxId)
    (running : HttpMgmt → List CtxId) (readyLen : HttpMgmt → Int) (listTimeout : HttpMgmt → List CtxId)
    (ctxCaches : HttpMgmt → List CtxId) (totalAdd totalProcess : HttpMgmt → Int) :
    Within parts acts (modify fun d =>
      { d with
        listReady := listReady d
        running := running d
        readyLen := readyLen d
        listTimeout := listTimeout d
        ctxCaches := ctxCaches d
        totalAdd := totalAdd d
        totalProcess := totalProcess d }) :=
  within_modify fun w => { Frame.refl w with schedule := fun out => absurd allowed out }

instance within_clientList [Allows parts .clientList] (listClient : HttpMgmt → List ClientId) :
    Within parts acts (modify fun d => { d with listClient := listClient d }) :=
  within_modify fun w => { Frame.refl w with clientList := fun out => absurd allowed out }

instance within_clientCount [Allows parts .clientCount] (nextClient : HttpMgmt → ClientId) :
    Within parts acts (modify fun d => { d with nextClient := nextClient d }) :=
  within_modify fun w => { Frame.refl w with clientCount := fun out => absurd allowed out }

instance within_forwardList [Allows parts .forwardList] (listForward : HttpMgmt → List FwdId)
    (lenForward : HttpMgmt → Int) :
    Within parts acts (modify fun d => { d with listForward := listForward d, lenForward := lenForward d }) :=
  within_modify fun w => { Frame.refl w with forwardList := fun out => absurd allowed out }

instance within_forwardCount [Allows parts .forwardCount] (nextForward : HttpMgmt → FwdId) :
    Within parts acts (modify fun d => { d with nextForward := nextForward d }) :=
  within_modify fun w => { Frame.refl w with forwardCount := fun out => absurd allowed out }

instance within_server [Allows parts .server] (tcpServer : HttpMgmt → TcpServerContext) :
    Within parts acts (modify fun d => { d with tcpServer := tcpServer d }) :=
  within_modify fun w => { Frame.refl w with server := fun out => absurd allowed out }

instance within_sync [Allows parts .sync] (syncPrepare : HttpMgmt → Bool) (syncTime : HttpMgmt → Int) :
    Within parts acts (modify fun d => { d with syncPrepare := syncPrepare d, syncTime := syncTime d }) :=
  within_modify fun w => { Frame.refl w with sync := fun out => absurd allowed out }

instance within_shake [Allows parts .shake] (clientId : HttpMgmt → Nat) (shakehand : HttpMgmt → Bool) :
    Within parts acts (modify fun d => { d with clientId := clientId d, shakehand := shakehand d }) :=
  within_modify fun w => { Frame.refl w with shake := fun out => absurd allowed out }

instance within_alive [Allows parts .alive] (lastAliveTime : HttpMgmt → Int) :
    Within parts acts (modify fun d => { d with lastAliveTime := lastAliveTime d }) :=
  within_modify fun w => { Frame.refl w with alive := fun out => absurd allowed out }

/-! Reading and writing memory, and the system. -/

instance within_getBuf (b : BufId) : Within parts acts (getBuf b) := ⟨Frame.refl⟩
instance within_getCtx (c : CtxId) : Within parts acts (getCtx c) := ⟨Frame.refl⟩
instance within_getClient (k : ClientId) : Within parts acts (getClient k) := ⟨Frame.refl⟩
instance within_getForward (f : FwdId) : Within parts acts (getForward f) := ⟨Frame.refl⟩
instance within_getPollFd (slot : Nat) : Within parts acts (getPollFd slot) := ⟨Frame.refl⟩

instance within_assert (p : Prop) [Decidable p] : Within parts acts (assert p) := within_demand p _

instance within_deref (pointer : Option α) : Within parts acts (deref pointer) := by
  cases pointer with
  | none => exact within_stop _
  | some a => exact within_pure a

instance within_bytesAt (b : BufId) (offset len : Int) : Within parts acts (bytesAt b offset len) := by
  unfold bytesAt
  infer_instance

instance within_memcpy (b : BufId) (offset : Int) (bytes : List Byte) :
    Within parts acts (memcpy b offset bytes) := by
  unfold memcpy
  infer_instance

instance within_reply : Within parts acts reply := by
  have taken : ∀ d : HttpMgmt, Within parts acts (modify fun d => { d with replies := d.replies.tail }) :=
    fun _ => within_modify fun w => { Frame.refl w with }
  unfold reply
  infer_instance

instance within_errno (e : Errno) : Within parts acts (modify fun d => { d with errno := e }) :=
  within_modify fun w => { Frame.refl w with }

instance within_number (r : Reply) : Within parts acts (number r) := by
  cases r <;> (unfold number; infer_instance)

instance within_sysRead (o : Owner) [∀ bytes, Allows acts (.read o bytes)] (room : Int) :
    Within parts acts (sysRead o room) := by
  unfold sysRead
  refine within_next fun r => ?_
  cases r <;> infer_instance

instance within_sysWrite (o : Owner) [∀ bytes, Allows acts (.write o bytes)] (bytes : List Byte) :
    Within parts acts (sysWrite o bytes) := by
  unfold sysWrite
  refine within_next fun r => ?_
  cases r <;> infer_instance

instance within_sysConnect (o : Owner) (host port : Nat) [Allows acts (.connect o host port)] :
    Within parts acts (sysConnect o host port) := by
  unfold sysConnect
  infer_instance

instance within_sysSocket : Within parts acts sysSocket := by
  unfold sysSocket
  infer_instance

instance within_nameResolve (host : List Byte) : Within parts acts (nameResolve host) := by
  unfold nameResolve
  refine within_next fun r => ?_
  cases r <;> infer_instance

/-! The pool, the frame from the server and the queue to it. -/

instance within_nextBufInfo (h : BufHead) : Within parts acts (nextBufInfo h) := within_head h

instance within_listEmpty (h : BufHead) : Within parts acts (listEmpty h) := by
  unfold listEmpty
  infer_instance

instance within_allocBuf : Within parts acts allocBuf := by
  unfold allocBuf
  refine within_next fun b => ?_
  cases b <;> infer_instance

instance within_freeBuf [Allows parts (.fill .caches)] (o : Option BufId) : Within parts acts (freeBuf o) := by
  cases o <;> (unfold freeBuf; infer_instance)

instance within_releasePrepare [Allows parts (.fill .caches)] [Allows parts .prepare] :
    Within parts acts releasePrepare := by
  unfold releasePrepare
  infer_instance

instance within_savePrepare [Allows parts (.fill .prepare)] [Allows parts .prepare] (b : BufId) :
    Within parts acts (savePrepare b) := by
  unfold savePrepare
  infer_instance

instance within_fillBuf (b : BufId) (bytes : List Byte) (len : Int) : Within parts acts (fillBuf b bytes len) := by
  unfold fillBuf
  infer_instance

instance within_setToserverFlag [Allows parts .queue] (busy : Bool) :
    Within parts acts (modify fun d => { d with toserver := busy }) :=
  within_modify fun w => { Frame.refl w with queue := fun out => absurd allowed out }

instance within_httpMgmtToserver [Allows parts .queue] [Allows acts .goWritable] :
    Within parts acts httpMgmtToserver := by
  unfold httpMgmtToserver websocketGoWritable
  infer_instance

/-! Polled descriptors. -/

instance within_setPollFd [Allows parts .polls] (slot : Nat) (pfd : PollFd) :
    Within parts acts (setPollFd slot pfd) :=
  within_modify fun w => { Frame.refl w with polls := fun out => absurd allowed out }

instance within_setEvents (o : Owner) [Allows parts .polls] [∀ events, Allows acts (.interest o events)]
    (slot : Option Nat) (f : PollEvents → PollEvents) : Within parts acts (setEvents o slot f) := by
  unfold setEvents
  infer_instance

/-- A change of the table and of what finds its slots. -/
instance within_polls [Allows parts .polls] (pollfds : HttpMgmt → Nat → PollFd) (fdLookup : HttpMgmt → Int → Nat)
    (countPollfds : HttpMgmt → Nat) (httpLookup : HttpMgmt → Int → Option Owner) :
    Within parts acts (modify fun d =>
      { d with
        pollfds := pollfds d
        fdLookup := fdLookup d
        countPollfds := countPollfds d
        httpLookup := httpLookup d }) :=
  within_modify fun w => { Frame.refl w with polls := fun out => absurd allowed out }

instance within_mgmtAddFd [Allows parts .polls] (fd : Int) (events : PollEvents) :
    Within parts acts (mgmtAddFd fd events) := by
  unfold mgmtAddFd
  infer_instance

instance within_mgmtDelFd [Allows parts .polls] (fd : Int) : Within parts acts (mgmtDelFd fd) := by
  unfold mgmtDelFd
  infer_instance

instance within_setLookup [Allows parts .polls] (fd : Int) (o : Option Owner) :
    Within parts acts (setLookup fd o) := by
  unfold setLookup
  infer_instance

instance within_dropFd [Allows parts .polls] (fd : Int) : Within parts acts (dropFd fd) := by
  unfold dropFd
  infer_instance

end
end WebTunnel.Device.Frames
