import Mathlib.Data.Set.Card
import WebTunnel.Server.Events

/-! What the sessions of the server are for: a book that keeps of every manager its table,
of every connection and processor only which session it belongs to, and of every web
request whether it was answered. The accounts balance when each session in a table serves
an open forward or an unanswered request, and each of these has its session. -/

namespace WebTunnel.Server.Accounts
open Library.Bytes Library.JavaScript Library.Json Library.Slots Sessions Server.Types

inductive Purpose where
  | forward (c : ConnId) (seq : Nat)
  | http (username : Text) (seq : Nat)
  | webcam

structure Link where
  isOpen : Bool
  username : Option Text
  seq : Option Nat
  user : JsVal
  camSeq : Option Nat

structure Book where
  tables : JsVal → Option (SessionTable ProcRef)
  cams : JsVal → List Text
  links : ConnId → Option Link
  purposes : ProcId → Option Purpose
  nextProc : ProcId
  ended : ProcId → Prop

def OpenForward (b : Book) (username : Text) (c : ConnId) (seq : Nat) : Prop :=
  ∃ link, b.links c = some link ∧ link.isOpen ∧ link.username = some username ∧ link.seq = some seq

def Unanswered (b : Book) (username : Text) (id : ProcId) (seq : Nat) : Prop :=
  b.purposes id = some (.http username seq) ∧ ¬ b.ended id

/-- A session of `username` at work. -/
inductive Serves (b : Book) (username : Text) (ref : ProcRef) : Prop where
  | forward {c : ConnId} (purpose : b.purposes ref.id = some (.forward c ref.seq))
      (isOpen : OpenForward b username c ref.seq)
  | http (unanswered : Unanswered b username ref.id ref.seq)

/-- `ref` is in a slot of the table of `user`. -/
def HasSession (b : Book) (user : JsVal) (ref : ProcRef) : Prop :=
  ∃ t, b.tables user = some t ∧ Live t ref

structure Accounted (b : Book) : Prop where
  tables : ∀ user t, b.tables user = some t → ∃ objs, Represents t objs
  serves : ∀ user ref, HasSession b user ref → ∃ username, user = .str username ∧ Serves b username ref
  forwards : ∀ c link seq, b.links c = some link → link.isOpen → link.seq = some seq →
    link.user = .undefined ∧ ∃ username id, link.username = some username ∧
      HasSession b (.str username) ⟨id, seq⟩ ∧ b.purposes id = some (.forward c seq)
  requests : ∀ username id seq, Unanswered b username id seq → HasSession b (.str username) ⟨id, seq⟩
  unused : ∀ id, b.nextProc ≤ id → b.purposes id = none ∧ ¬ b.ended id
  noCams : ∀ user, b.cams user = []
  noViewers : ∀ c link, b.links c = some link → link.camSeq = none

section
variable {b : Book} {username : Text} {t : SessionTable ProcRef} {objs : List ProcRef}

/-- Whom a session serves: a connection, or a web request. -/
def client (b : Book) (ref : ProcRef) : ConnId ⊕ ProcId :=
  match b.purposes ref.id with
  | some (.forward c _) => .inl c
  | _ => .inr ref.id

theorem Accounted.own (acc : Accounted b) (known : b.tables (.str username) = some t)
    {ref : ProcRef} (live : Live t ref) : Serves b username ref := by
  obtain ⟨username', same, serves⟩ := acc.serves _ ref ⟨t, known, live⟩
  cases same
  exact serves

theorem client_forward {ref : ProcRef} {c : ConnId} {seq : Nat}
    (purpose : b.purposes ref.id = some (.forward c seq)) : client b ref = .inl c := by
  rw [client, purpose]

theorem client_http {ref : ProcRef} {seq : Nat} (unanswered : Unanswered b username ref.id seq) :
    client b ref = .inr ref.id := by
  rw [client, unanswered.1]

theorem Accounted.client_injective (acc : Accounted b) (known : b.tables (.str username) = some t)
    (rep : Represents t objs) {ref ref' : ProcRef} (live : ref ∈ objs) (live' : ref' ∈ objs)
    (same : client b ref = client b ref') : ref = ref' := by
  refine rep.unique live live' ?_
  change ref.seq = ref'.seq
  cases acc.own known (rep.live_iff.mpr live) with
  | forward purpose isOpen =>
    rw [client_forward purpose] at same
    cases acc.own known (rep.live_iff.mpr live') with
    | forward purpose' isOpen' =>
      rw [client_forward purpose'] at same
      cases same
      obtain ⟨link, found, _, _, seq⟩ := isOpen
      obtain ⟨link', found', _, _, seq'⟩ := isOpen'
      cases found.symm.trans found'
      exact Option.some.inj (seq.symm.trans seq')
    | http unanswered' =>
      rw [client_http unanswered'] at same
      cases same
  | http unanswered =>
    rw [client_http unanswered] at same
    cases acc.own known (rep.live_iff.mpr live') with
    | forward purpose' =>
      rw [client_forward purpose'] at same
      cases same
    | http unanswered' =>
      rw [client_http unanswered'] at same
      have ids : ref.id = ref'.id := Sum.inr.inj same
      have purposes := unanswered.1
      rw [ids, unanswered'.1] at purposes
      have seqs := (Purpose.http.inj (Option.some.inj purposes)).2
      exact seqs.symm

theorem Accounted.mem_clients (acc : Accounted b) (known : b.tables (.str username) = some t)
    (rep : Represents t objs) (x : ConnId ⊕ ProcId) :
    x ∈ objs.map (client b) ↔
      x ∈ Sum.inl '' {c | ∃ seq, OpenForward b username c seq} ∪
        Sum.inr '' {id | ∃ seq, Unanswered b username id seq} := by
  rw [List.mem_map]
  constructor
  · rintro ⟨ref, live, rfl⟩
    cases acc.own known (rep.live_iff.mpr live) with
    | forward purpose isOpen =>
      rw [client_forward purpose]
      exact .inl ⟨_, ⟨_, isOpen⟩, rfl⟩
    | http unanswered =>
      rw [client_http unanswered]
      exact .inr ⟨_, ⟨_, unanswered⟩, rfl⟩
  · rintro (⟨c, ⟨seq, link, found, isOpen, named, opened⟩, rfl⟩ | ⟨id, ⟨seq, unanswered⟩, rfl⟩)
    · obtain ⟨_, username', id, named', ⟨t', known', live⟩, purpose⟩ :=
        acc.forwards c link seq found isOpen opened
      cases named.symm.trans named'
      cases known.symm.trans known'
      exact ⟨⟨id, seq⟩, rep.live_iff.mp live, client_forward purpose⟩
    · obtain ⟨t', known', live⟩ := acc.requests username id seq unanswered
      cases known.symm.trans known'
      exact ⟨⟨id, seq⟩, rep.live_iff.mp live, client_http unanswered⟩

/-- In a balanced book the live count of a user is the number of open forwards plus the
number of unanswered requests. -/
theorem Accounted.count (acc : Accounted b) (known : b.tables (.str username) = some t) :
    t.cnt = {c | ∃ seq, OpenForward b username c seq}.ncard +
      {id | ∃ seq, Unanswered b username id seq}.ncard := by
  obtain ⟨objs, rep⟩ := acc.tables _ t known
  have nodup : (objs.map (client b)).Nodup :=
    (List.nodup_map_iff_inj_on rep.nodup).mpr fun _ live _ live' =>
      acc.client_injective known rep live live'
  have whole : (Sum.inl '' {c | ∃ seq, OpenForward b username c seq} ∪
      Sum.inr '' {id | ∃ seq, Unanswered b username id seq} : Set (ConnId ⊕ ProcId)) =
      ((objs.map (client b)).toFinset : Set (ConnId ⊕ ProcId)) := by
    ext x
    rw [List.coe_toFinset, Set.mem_ofPred_eq, acc.mem_clients known rep]
  have finite := (objs.map (client b)).toFinset.finite_toSet
  rw [← whole] at finite
  have apart : Disjoint (Sum.inl '' {c | ∃ seq, OpenForward b username c seq})
      (Sum.inr '' {id | ∃ seq, Unanswered b username id seq} : Set (ConnId ⊕ ProcId)) := by
    rw [Set.disjoint_left]
    rintro _ ⟨_, _, rfl⟩ ⟨_, _, same⟩
    cases same
  calc t.cnt = (objs.map (client b)).toFinset.card := by
        rw [List.toFinset_card_of_nodup nodup, List.length_map, rep.count]
    _ = _ := by
        rw [← Set.ncard_coe_finset, ← whole,
          Set.ncard_union_eq apart (finite.subset Set.subset_union_left)
            (finite.subset Set.subset_union_right),
          Set.ncard_image_of_injective _ Sum.inl_injective,
          Set.ncard_image_of_injective _ Sum.inr_injective]

end

/-! The bookings. -/

def Book.setTable (b : Book) (user : JsVal) (t : SessionTable ProcRef) : Book :=
  { b with tables := fun key => if key = user then some t else b.tables key }

def Book.setLink (b : Book) (c : ConnId) (link : Link) : Book :=
  { b with links := fun key => if key = c then some link else b.links key }

theorem Book.setTable_tables (b : Book) (user key : JsVal) (t : SessionTable ProcRef) :
    (b.setTable user t).tables key = if key = user then some t else b.tables key := rfl

theorem Book.setLink_links (b : Book) (c key : ConnId) (link : Link) :
    (b.setLink c link).links key = if key = c then some link else b.links key := rfl

/-- A processor for a new purpose. -/
def Book.setPurpose (b : Book) (purpose : Purpose) : Book :=
  { b with
    purposes := fun key => if key = b.nextProc then some purpose else b.purposes key
    nextProc := b.nextProc + 1 }

def Book.setEnded (b : Book) (id : ProcId) : Book :=
  { b with ended := fun key => key = id ∨ b.ended key }

section
variable {b : Book} {username : Text} {t t' : SessionTable ProcRef}

theorem Accounted.id_lt (acc : Accounted b) {id : ProcId} {purpose : Purpose}
    (known : b.purposes id = some purpose) : id < b.nextProc := by
  by_contra high
  rw [(acc.unused id (Nat.le_of_not_lt high)).1] at known
  cases known

theorem Serves.id_known {ref : ProcRef} (serves : Serves b username ref) :
    ∃ purpose, b.purposes ref.id = some purpose := by
  cases serves with
  | forward purpose => exact ⟨_, purpose⟩
  | http unanswered => exact ⟨_, unanswered.1⟩

/-- A connection without an open session comes, changes or goes. -/
theorem Accounted.setLink (acc : Accounted b) {c : ConnId} {link : Link}
    (before : ∀ old, b.links c = some old → old.isOpen → old.seq = none)
    (after : link.isOpen → link.seq = none) (noViewer : link.camSeq = none) :
    Accounted (b.setLink c link) := by
  have others : ∀ username c' seq, OpenForward b username c' seq →
      OpenForward (b.setLink c link) username c' seq := by
    rintro username c' seq ⟨old, found, isOpen, named, opened⟩
    have apart : c' ≠ c := by
      rintro rfl
      rw [before old found isOpen] at opened
      cases opened
    exact ⟨old, (if_neg apart).trans found, isOpen, named, opened⟩
  refine ⟨acc.tables, ?_, ?_, acc.requests, acc.unused, acc.noCams, ?_⟩
  · intro user ref session
    obtain ⟨username, same, serves⟩ := acc.serves user ref session
    refine ⟨username, same, ?_⟩
    cases serves with
    | forward purpose isOpen => exact .forward purpose (others _ _ _ isOpen)
    | http unanswered => exact .http unanswered
  · intro c' link' seq found isOpen opened
    by_cases same : c' = c
    · rw [Book.setLink_links, if_pos same] at found
      cases found
      rw [after isOpen] at opened
      cases opened
    · exact acc.forwards c' link' seq ((if_neg same).symm.trans found) isOpen opened
  · intro c' link' found
    by_cases same : c' = c
    · rw [Book.setLink_links, if_pos same] at found
      cases found
      exact noViewer
    · exact acc.noViewers c' link' ((if_neg same).symm.trans found)

/-- The first device of a user brings an empty table. -/
theorem Accounted.newTable (acc : Accounted b) {user : JsVal} (unknown : b.tables user = none) :
    Accounted (b.setTable user fresh) := by
  have same : ∀ user' ref, HasSession (b.setTable user fresh) user' ref ↔ HasSession b user' ref := by
    intro user' ref
    by_cases here : user' = user
    · subst here
      refine iff_of_false ?_ (fun ⟨t, known, _⟩ => nomatch unknown.symm.trans known)
      rintro ⟨t, known, live⟩
      rw [Book.setTable_tables, if_pos rfl] at known
      cases known
      exact absurd (represents_fresh.live_iff.mp live) List.not_mem_nil
    · simp only [HasSession, Book.setTable_tables, if_neg here]
  refine ⟨?_, ?_, ?_, ?_, acc.unused, acc.noCams, acc.noViewers⟩
  · intro user' t' known
    by_cases here : user' = user
    · rw [Book.setTable_tables, if_pos here] at known
      cases known
      exact ⟨[], represents_fresh⟩
    · exact acc.tables user' t' ((if_neg here).symm.trans known)
  · intro user' ref session
    obtain ⟨username, named, serves⟩ := acc.serves user' ref ((same _ _).mp session)
    refine ⟨username, named, ?_⟩
    cases serves with
    | forward purpose isOpen => exact .forward purpose isOpen
    | http unanswered => exact .http unanswered
  · intro c link seq found isOpen opened
    obtain ⟨isBrowser, username, id, named, session, purpose⟩ :=
      acc.forwards c link seq found isOpen opened
    exact ⟨isBrowser, username, id, named, (same _ _).mpr session, purpose⟩
  · intro username id seq unanswered
    exact (same _ _).mpr (acc.requests username id seq unanswered)

/-- No session of the table has the id that the next allocation takes. -/
def CursorFree (t : SessionTable ProcRef) : Prop := ∀ o, Live t o → o.seq ≠ cursor t

/-- The table with one more session, of the processor `id`. -/
def opened (t : SessionTable ProcRef) (id : ProcId) : SessionTable ProcRef :=
  (newSeq t fun seq => ⟨id, seq⟩).2

/-- A book in which `username` has one more session, for a purpose of its own. -/
def Book.open (b : Book) (username : Text) (t : SessionTable ProcRef) (purpose : Purpose) : Book :=
  (b.setPurpose purpose).setTable (.str username) (opened t b.nextProc)

theorem Accounted.hasSession_open (acc : Accounted b) (known : b.tables (.str username) = some t)
    (room : t.cnt < userMgrMax) (free : CursorFree t) (purpose : Purpose) :
    (∃ objs, Represents (opened t b.nextProc) objs) ∧
    ∀ user ref, HasSession (b.open username t purpose) user ref ↔
      HasSession b user ref ∨ user = .str username ∧ ref = ⟨b.nextProc, cursor t⟩ := by
  obtain ⟨objs, rep⟩ := acc.tables _ t known
  obtain ⟨next, live⟩ := rep.newSeq_live (fun seq => (⟨b.nextProc, seq⟩ : ProcRef)) room rfl free
  refine ⟨next, fun user ref => ?_⟩
  by_cases here : user = .str username
  · subst here
    simp only [HasSession, Book.open, Book.setTable_tables, if_true, Option.some.injEq,
      exists_eq_left', known, true_and]
    exact live ref
  · simp only [HasSession, Book.open, Book.setTable_tables, here, false_and, or_false]
    rfl

/-- Other sessions keep their purposes when a new one is booked. -/
theorem Serves.open {ref : ProcRef} {username' : Text} {purpose : Purpose} (acc : Accounted b)
    (serves : Serves b username ref) : Serves (b.open username' t purpose) username ref := by
  obtain ⟨known, same⟩ := serves.id_known
  have old : ∀ p, b.purposes ref.id = some p → (b.open username' t purpose).purposes ref.id = some p := by
    intro p at_
    exact (if_neg (Nat.ne_of_lt (acc.id_lt same))).trans at_
  cases serves with
  | forward purpose isOpen => exact .forward (old _ purpose) isOpen
  | http unanswered => exact .http ⟨old _ unanswered.1, unanswered.2⟩

theorem Accounted.open_tables (acc : Accounted b) (known : b.tables (.str username) = some t)
    (room : t.cnt < userMgrMax) (free : CursorFree t) (purpose : Purpose) :
    ∀ user t', (b.open username t purpose).tables user = some t' → ∃ objs, Represents t' objs := by
  intro user t' found
  by_cases here : user = .str username
  · rw [Book.open, Book.setTable_tables, if_pos here] at found
    cases found
    exact (acc.hasSession_open known room free purpose).1
  · exact acc.tables user t' ((if_neg here).symm.trans found)

theorem Book.open_purposes (username : Text) (t : SessionTable ProcRef) {purpose : Purpose} {id : ProcId} {p : Purpose}
    (at_ : (b.open username t purpose).purposes id = some p) :
    id = b.nextProc ∧ p = purpose ∨ b.purposes id = some p := by
  by_cases new : id = b.nextProc
  · have same : some purpose = some p := (if_pos new).symm.trans at_
    exact .inl ⟨new, (Option.some.inj same).symm⟩
  · exact .inr ((if_neg new).symm.trans at_)

theorem Accounted.open_unused (acc : Accounted b) (username : Text) (t : SessionTable ProcRef)
    (purpose : Purpose) {id : ProcId} (high : b.nextProc + 1 ≤ id) :
    (b.open username t purpose).purposes id = none ∧ ¬ (b.open username t purpose).ended id := by
  have unused := acc.unused id (Nat.le_of_succ_le high)
  exact ⟨(if_neg (Nat.ne_of_gt high)).trans unused.1, unused.2⟩

/-- A web request opens a session that serves it. -/
theorem Accounted.openHttp (acc : Accounted b) (known : b.tables (.str username) = some t)
    (room : t.cnt < userMgrMax) (free : CursorFree t) :
    Accounted (b.open username t (.http username (cursor t))) := by
  obtain ⟨_, sessions⟩ := acc.hasSession_open known room free (.http username (cursor t))
  refine ⟨acc.open_tables known room free _, ?_, ?_, ?_, fun _ => acc.open_unused _ _ _, acc.noCams,
    acc.noViewers⟩
  · intro user ref session
    rcases (sessions user ref).mp session with old | ⟨rfl, rfl⟩
    · obtain ⟨username', named, serves⟩ := acc.serves user ref old
      exact ⟨username', named, serves.open acc⟩
    · exact ⟨username, rfl, .http ⟨if_pos rfl, (acc.unused _ (Nat.le_refl _)).2⟩⟩
  · intro c link seq found isOpen opened
    obtain ⟨isBrowser, username', id, named, session, purpose⟩ :=
      acc.forwards c link seq found isOpen opened
    exact ⟨isBrowser, username', id, named, (sessions _ _).mpr (.inl session),
      (if_neg (Nat.ne_of_lt (acc.id_lt purpose))).trans purpose⟩
  · intro username' id seq unanswered
    rcases Book.open_purposes username t unanswered.1 with ⟨rfl, same⟩ | old
    · cases same
      exact (sessions _ _).mpr (.inr ⟨rfl, rfl⟩)
    · exact (sessions _ _).mpr (.inl (acc.requests username' id seq ⟨old, unanswered.2⟩))

/-- A browser's hello opens a session that serves its connection. -/
theorem Accounted.openForward (acc : Accounted b) (known : b.tables (.str username) = some t)
    (room : t.cnt < userMgrMax) (free : CursorFree t) {c : ConnId} {link : Link}
    (found : b.links c = some link) (isOpen : link.isOpen) (named : link.username = some username)
    (unopened : link.seq = none) (isBrowser : link.user = .undefined) :
    Accounted ((b.open username t (.forward c (cursor t))).setLink c
      { link with seq := some (cursor t) }) := by
  obtain ⟨_, sessions⟩ := acc.hasSession_open known room free (.forward c (cursor t))
  refine ⟨acc.open_tables known room free _, ?_, ?_, ?_,
    fun _ => acc.open_unused username t (.forward c (cursor t)), acc.noCams, ?_⟩
  · intro user ref session
    rcases (sessions user ref).mp session with old | ⟨rfl, rfl⟩
    · obtain ⟨username', same, serves⟩ := acc.serves user ref old
      refine ⟨username', same, ?_⟩
      cases serves.open acc with
      | forward purpose isOpen =>
        obtain ⟨link', found', isOpen', named', opened'⟩ := isOpen
        refine .forward purpose ⟨link', (if_neg ?_).trans found', isOpen', named', opened'⟩
        rintro rfl
        cases found.symm.trans found'
        rw [unopened] at opened'
        cases opened'
      | http unanswered => exact .http unanswered
    · exact ⟨username, rfl, .forward (if_pos rfl) ⟨_, if_pos rfl, isOpen, named, rfl⟩⟩
  · intro c' link' seq found' isOpen' opened
    by_cases here : c' = c
    · rw [Book.setLink_links, if_pos here] at found'
      cases found'
      cases opened
      rw [here]
      exact ⟨isBrowser, username, b.nextProc, named, (sessions _ _).mpr (.inr ⟨rfl, rfl⟩), if_pos rfl⟩
    · obtain ⟨isBrowser', username', id, named', session, purpose⟩ :=
        acc.forwards c' link' seq ((if_neg here).symm.trans found') isOpen' opened
      exact ⟨isBrowser', username', id, named', (sessions _ _).mpr (.inl session),
        (if_neg (Nat.ne_of_lt (acc.id_lt purpose))).trans purpose⟩
  · intro username' id seq unanswered
    rcases Book.open_purposes username t unanswered.1 with ⟨_, same⟩ | old
    · cases same
    · exact (sessions _ _).mpr (.inl (acc.requests username' id seq ⟨old, unanswered.2⟩))
  · intro c' link' found'
    by_cases here : c' = c
    · rw [Book.setLink_links, if_pos here] at found'
      cases found'
      exact acc.noViewers c link found
    · exact acc.noViewers c' link' ((if_neg here).symm.trans found')

/-- Deleting by an id that leads to a session takes that session out of the user's table. -/
theorem Accounted.hasSession_delete (acc : Accounted b) (known : b.tables (.str username) = some t)
    {x : Nat} {o : ProcRef} (leads : getBySeq t x = some o) :
    ∃ t', delSeq t x = .ok (some o, t') ∧
      (∀ user t'', (b.setTable (.str username) t').tables user = some t'' →
        ∃ objs, Represents t'' objs) ∧
      ∀ user ref, HasSession (b.setTable (.str username) t') user ref ↔
        HasSession b user ref ∧ ¬ (user = .str username ∧ ref = o) := by
  obtain ⟨objs, rep⟩ := acc.tables _ t known
  obtain ⟨t', result, next, live⟩ := rep.delSeq_live leads
  refine ⟨t', result, fun user t'' found => ?_, fun user ref => ?_⟩
  · by_cases here : user = .str username
    · rw [Book.setTable_tables, if_pos here] at found
      cases found
      exact next
    · exact acc.tables user t'' ((if_neg here).symm.trans found)
  · by_cases here : user = .str username
    · subst here
      simp only [HasSession, Book.setTable_tables, if_true, Option.some.injEq, exists_eq_left', known,
        true_and]
      exact live ref
    · simp only [HasSession, Book.setTable_tables, here, if_false, false_and, not_false_eq_true,
        and_true]

/-- The response of a web request ends and its session is deleted. -/
theorem Accounted.endHttp (acc : Accounted b) (known : b.tables (.str username) = some t)
    {x : Nat} {o : ProcRef} (leads : getBySeq t x = some o) {seq : Nat} {username' : Text}
    (purpose : b.purposes o.id = some (.http username' seq)) :
    ∃ t', delSeq t x = .ok (some o, t') ∧
      Accounted ((b.setTable (.str username) t').setEnded o.id) := by
  obtain ⟨t', result, tables, sessions⟩ := acc.hasSession_delete known leads
  have own : ∀ {username'} {ref : ProcRef}, HasSession b (.str username') ref → ref.id = o.id →
      username' = username ∧ ref = o := by
    intro username'' ref ⟨t'', known'', live''⟩ same
    obtain ⟨i, _, at_⟩ := getBySeq_eq_some.mp leads
    have purposes : ∀ {u : Text} {r : ProcRef}, Serves b u r → r.id = o.id →
        b.purposes o.id = some (.http u r.seq) := by
      intro u r serves same
      cases serves with
      | forward other =>
        rw [same, purpose] at other
        cases other
      | http unanswered => exact same ▸ unanswered.1
    have first := purposes (acc.own known'' live'') same
    rw [purposes (acc.own known ⟨i, at_⟩) rfl] at first
    obtain ⟨users, seqs⟩ := Purpose.http.inj (Option.some.inj first)
    exact ⟨users.symm, by cases ref; cases o; simp_all⟩
  refine ⟨t', result, tables, ?_, ?_, ?_, ?_, acc.noCams, acc.noViewers⟩
  · intro user ref session
    obtain ⟨old, other⟩ := (sessions user ref).mp session
    obtain ⟨username'', same, serves⟩ := acc.serves user ref old
    refine ⟨username'', same, ?_⟩
    cases serves with
    | forward purpose isOpen => exact .forward purpose isOpen
    | http unanswered =>
      refine .http ⟨unanswered.1, ?_⟩
      rintro (here | ended)
      · subst same
        obtain ⟨rfl, equal⟩ := own old here
        exact other ⟨rfl, equal⟩
      · exact unanswered.2 ended
  · intro c link seq found isOpen opened
    obtain ⟨isBrowser, username'', id, named, session, purpose'⟩ :=
      acc.forwards c link seq found isOpen opened
    refine ⟨isBrowser, username'', id, named, (sessions _ _).mpr ⟨session, ?_⟩, purpose'⟩
    rintro ⟨_, rfl⟩
    rw [purpose] at purpose'
    cases purpose'
  · intro username'' id seq unanswered
    refine (sessions _ _).mpr ⟨acc.requests username'' id seq
      ⟨unanswered.1, fun ended => unanswered.2 (.inr ended)⟩, ?_⟩
    rintro ⟨_, rfl⟩
    exact unanswered.2 (.inl rfl)
  · intro id high
    obtain ⟨none, notEnded⟩ := acc.unused id high
    refine ⟨none, ?_⟩
    rintro (rfl | ended)
    · rw [none] at purpose
      cases purpose
    · exact notEnded ended

/-- A forward closes and its session is deleted. -/
theorem Accounted.closeForward (acc : Accounted b) (known : b.tables (.str username) = some t)
    {x : Nat} {o : ProcRef} (leads : getBySeq t x = some o) {c : ConnId} {link : Link}
    (found : b.links c = some link) (isOpen : link.isOpen) (named : link.username = some username)
    (opened : link.seq = some o.seq) :
    ∃ t', delSeq t x = .ok (some o, t') ∧
      Accounted ((b.setTable (.str username) t').setLink c { link with isOpen := false }) := by
  obtain ⟨t', result, tables, sessions⟩ := acc.hasSession_delete known leads
  obtain ⟨objs, rep⟩ := acc.tables _ t known
  obtain ⟨_, username', id, named', ⟨t'', known'', live''⟩, purpose⟩ :=
    acc.forwards c link o.seq found isOpen opened
  cases named.symm.trans named'
  cases known.symm.trans known''
  have mine : (⟨id, o.seq⟩ : ProcRef) = o := by
    obtain ⟨i, _, at_⟩ := getBySeq_eq_some.mp leads
    exact rep.unique (rep.live_iff.mp live'') (rep.live_iff.mp ⟨i, at_⟩) rfl
  refine ⟨t', result, tables, ?_, ?_, ?_, acc.unused, acc.noCams, ?_⟩
  · intro user ref session
    obtain ⟨old, other⟩ := (sessions user ref).mp session
    obtain ⟨username', same, serves⟩ := acc.serves user ref old
    refine ⟨username', same, ?_⟩
    cases serves with
    | http unanswered => exact .http unanswered
    | @forward c' purpose' isOpen' =>
      obtain ⟨link', found', isOpen'', named'', opened'⟩ := isOpen'
      refine .forward purpose' ⟨link', (if_neg ?_).trans found', isOpen'', named'', opened'⟩
      rintro rfl
      cases found.symm.trans found'
      cases named.symm.trans named''
      obtain ⟨t'', known'', live'⟩ := old
      rw [same, known] at known''
      cases known''
      rw [opened] at opened'
      exact other ⟨same, rep.unique (rep.live_iff.mp live')
        (mine ▸ rep.live_iff.mp live'') (Option.some.inj opened').symm⟩
  · intro c' link' seq found' isOpen' opened'
    by_cases here : c' = c
    · rw [Book.setLink_links, if_pos here] at found'
      cases found'
      cases isOpen'
    · obtain ⟨isBrowser, username', id', named', session, purpose'⟩ :=
        acc.forwards c' link' seq ((if_neg here).symm.trans found') isOpen' opened'
      refine ⟨isBrowser, username', id', named', (sessions _ _).mpr ⟨session, ?_⟩, purpose'⟩
      rintro ⟨_, same⟩
      have ids : id' = id := congrArg ProcRef.id (same.trans mine.symm)
      rw [ids, purpose] at purpose'
      exact here (Purpose.forward.inj (Option.some.inj purpose')).1.symm
  · intro username' id' seq unanswered
    refine (sessions _ _).mpr ⟨acc.requests username' id' seq unanswered, ?_⟩
    rintro ⟨_, same⟩
    have ids : id' = id := congrArg ProcRef.id (same.trans mine.symm)
    have purposes := unanswered.1
    rw [ids] at purposes
    cases purpose.symm.trans purposes
  · intro c' link' found'
    by_cases here : c' = c
    · rw [Book.setLink_links, if_pos here] at found'
      cases found'
      exact acc.noViewers c link found
    · exact acc.noViewers c' link' ((if_neg here).symm.trans found')

end

end WebTunnel.Server.Accounts
