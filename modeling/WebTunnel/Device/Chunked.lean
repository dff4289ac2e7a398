import Mathlib.Data.Fintype.Card
import WebTunnel.Device.Detecting

/-! Whole runs of the decoder: what a chunked response is decoded to, and which responses lead the
decoder astray. -/

namespace WebTunnel.Device.Chunked
open Library.Bytes Library.Lists Library.Routines Library.Routines.Routine Function Device.Types Buffers Parsing Http
open Pool Chunks Texts Decoding Detecting

/-! Runs of the loop. -/

section
variable {c : CtxId} {k : Nat} {S : List BufId} {r : Reader} {p : Place} {v : Decoder} {w : DevState}

/-- How the loop ends where the bytes do not lead astray. -/
inductive Ended (c : CtxId) (S : List BufId) (all : List Byte × Verdict) (v : Decoder) (w : DevState) : Prop where
  | finished (rc : v.rc = 0) (verdict : all.2 = .finished) (decoded : Decoded c S all.1 w)
  | refused (rc : v.rc < 0) (verdict : all.2 = .refused) (freed : Wp (abandon v) (fun _ _ => True) (fun _ => False) w)

theorem Ended.rc_le {all : List Byte × Verdict} (ended : Ended c S all v w) : ¬ 0 < v.rc := by
  cases ended with
  | finished rc => omega
  | refused rc => omega

/-- One round of the loop. -/
theorem wp_decode_succ {post : Decoder → DevState → Prop} {err : Fault → Prop} {fuel : Nat} :
    Wp (decode c (fuel + 1) v) post err w ↔
      if 0 < v.rc then Wp (decodeStep c v) (fun v' u => Wp (decode c fuel v') post err u) err w else post v w := by
  rw [decode, wp_ite]
  split
  · rw [wp_bind]
  · rfl

/-- Every round takes input or ends a chunk, so the loop comes to an end. -/
theorem wp_decode (pos : 0 < k) (here : At c k S r p v w) (sound : (ahead r p w.data).2 ≠ .stray) {fuel : Nat}
    (enough : effort r p w.data + 1 < fuel) :
    Wp (decode c fuel v) (Ended c S (ahead r p w.data)) (fun _ => False) w := by
  induction fuel generalizing r p v w with
  | zero => omega
  | succ fuel ih =>
    rw [wp_decode_succ, if_pos here.tracks.rc]
    refine wp_mono (decode_round pos here) (fun v' u outcome => ?_) fun e stray => sound stray
    have after (ended : Ended c S (ahead r p w.data) v' u) :
        Wp (decode c fuel v') (Ended c S (ahead r p w.data)) (fun _ => False) u := by
      obtain ⟨fuel, rfl⟩ : ∃ n, fuel = n + 1 := ⟨fuel - 1, by omega⟩
      rw [wp_decode_succ, if_neg ended.rc_le]
      exact ended
    cases outcome with
    | further r' p' here' same less =>
      rw [← same] at sound ⊢
      exact ih here' sound (by omega)
    | finished rc verdict decoded _ => exact after (.finished rc verdict decoded)
    | refused rc verdict _ freed => exact after (.refused rc verdict freed)
    | unparsed stray => exact absurd stray sound
    | stuck stray => exact absurd stray sound

end

/-! The beginning of the loop. -/

/-- The steps of `httpParse` in front of its loop, with the variables the loop begins with. -/
def parseStart (c : CtxId) : DevM (Int ⊕ Decoder) := do
  initListHead .chunk
  match ← nextBufInfo (.readTodo c) with
  | none =>
    setCtx c { ← getCtx c with errcode := 15 }
    return .inl (-1)
  | some b =>
    match ← httpChunkCheck c b with
    | none => return .inl (-1)
    | some offset =>
      if ¬ (← getCtx c).isChunk then
        return .inl 0
      else
        listDel b
        return .inr (Decoder.init b offset)

/-- The loop of `httpParse` and what follows it. -/
def parseLoop (c : CtxId) : Int ⊕ Decoder → DevM Int
  | .inl rc => return rc
  | .inr v => do
    let v ← decode c decodeFuel v
    when (v.rc < 0) do abandon v
    return v.rc

theorem wp_httpParse {c : CtxId} {post : Int → DevState → Prop} {err : Fault → Prop} {w : DevState} :
    Wp (httpParse c) post err w ↔ Wp (parseStart c) (fun start u => Wp (parseLoop c start) post err u) err w := by
  rw [httpParse, parseStart, wp_bind, wp_bind]
  refine wp_congr fun _ w => ?_
  rw [wp_bind, wp_bind]
  refine wp_congr fun found w => ?_
  cases found with
  | none => simp only [wp_bind, wp_pure, parseLoop]
  | some b =>
    dsimp only
    rw [wp_bind, wp_bind]
    refine wp_congr fun result w => ?_
    cases result with
    | none => exact Iff.rfl
    | some offset =>
      dsimp only
      rw [wp_bind, wp_bind, wp_getCtx, wp_getCtx, wp_ite, wp_ite]
      split
      · exact Iff.rfl
      · rw [wp_bind, wp_bind]
        exact wp_congr fun _ w => Iff.rfl

/-- The buffers of a response that was read: none is empty or too full. -/
structure ReadIn (c : CtxId) (l free : List BufId) (w : DevState) : Prop where
  todo : w.rings.items (.readTodo c) = some l
  nonempty : l ≠ []
  sizes : ∀ b ∈ l, 0 < (w.data.bufs b).len ∧ (w.data.bufs b).len ≤ httpBufSize
  pool : w.rings.items .caches = some free
  bare : ∀ l' ∈ w.rings.items .chunk, l' = []

/-- What lies in the first buffer. -/
def firstBytes (d : HttpMgmt) (l : List BufId) : List Byte := (contents d l).headD []

/-- Where the loop begins, if it is entered: the header block is found in the first buffer, there is
memory to look at it, and the response is chunked. -/
def bodyAt (chunked : Bool) (first : List Byte) (free : List BufId) : Option Nat :=
  match headEnd first with
  | none => none
  | some offset => if free ≠ [] ∧ (chunked || saysChunked (first.take offset)) then some offset else none

/-- Where the decoder stands at first. -/
def atBody (b : BufId) (rest free : List BufId) (offset : Nat) : Place where
  b := b
  last := b
  todo := rest
  done := []
  free := free
  passed := 0
  offset := offset
  lastI := offset

/-- What the loop begins with: nothing to do, or the decoder at the beginning of the body. -/
inductive Started (c : CtxId) (l free : List BufId) (d : HttpMgmt) (entered : Option Nat) (start : Int ⊕ Decoder) (u : DevState) : Prop where
  | quits (none : entered = none) (rc : Int) (same : start = .inl rc) (least : rc ≤ 0)
  | idle (none : entered = none) (v : Decoder) (same : start = .inr v) (rc : v.rc = 0)
  | begins (offset : Nat) (some : entered = some offset) (b : BufId) (rest : List BufId) (v : Decoder) (same : start = .inr v)
      (here : At c free.length l (.line []) (atBody b rest free offset) v u)
      (all : ahead (.line []) (atBody b rest free offset) u.data =
        ((contents d l).flatten.take offset ++ (decodeBytes (.line []) ((contents d l).flatten.drop offset)).1,
          (decodeBytes (.line []) ((contents d l).flatten.drop offset)).2))
      (few : effort (.line []) (atBody b rest free offset) u.data + 1 < decodeFuel)

section
variable {c : CtxId} {l free : List BufId} {w : DevState}

theorem firstBytes_cons (d : HttpMgmt) (b : BufId) (rest : List BufId) :
    firstBytes d (b :: rest) = (d.bufs b).buf.slice 0 (d.bufs b).len.toNat := rfl

/-- The bytes of buffers of which none holds more than it can. -/
theorem contents_length {d : HttpMgmt} (sizes : ∀ b ∈ l, (d.bufs b).len ≤ httpBufSize) :
    (contents d l).flatten.length ≤ httpBufSize * l.length := by
  induction l with
  | nil => rfl
  | cons b rest ih =>
    have size := sizes b List.mem_cons_self
    have less := ih fun b member => sizes b (List.mem_cons_of_mem _ member)
    have parts : (contents d (b :: rest)).flatten.length = (d.bufs b).len.toNat + (contents d rest).flatten.length := by
      rw [contents, List.map_cons, List.flatten_cons, List.length_append, Mem.slice_length]
      rfl
    rw [parts, List.length_cons, Nat.mul_succ]
    omega

/-- No response has so many bytes that the loop would need more rounds. -/
theorem effort_atBody {d : HttpMgmt} {b : BufId} {rest : List BufId} {offset : Nat} (nodup : (b :: rest).Nodup)
    (sizes : ∀ b' ∈ b :: rest, (d.bufs b').len ≤ httpBufSize) :
    effort (.line []) (atBody b rest free offset) d + 1 < decodeFuel := by
  have few := nodup.length_le_card
  rw [Fintype.card_fin, List.length_cons] at few
  have behind := contents_length (l := rest) fun b' member => sizes b' (List.mem_cons_of_mem _ member)
  have first := sizes b List.mem_cons_self
  have length : (remaining (atBody b rest free offset) d).length ≤ httpBufSize + httpBufSize * rest.length := by
    rw [remaining, unread, List.length_append, Mem.slice_length]
    have front : ((d.bufs (atBody b rest free offset).b).len.toNat - (atBody b rest free offset).offset) ≤ httpBufSize := by
      simp only [atBody]
      omega
    exact Nat.add_le_add front behind
  simp only [effort, ending, atBody, decodeFuel, httpBufCaches, bufRoom, httpBufSize] at *
  omega

theorem contents_checked {said : Bool} {d d' : HttpMgmt} (looked : Checked c l said d d') : contents d' l = contents d l :=
  List.map_congr_left fun b member => by rw [looked.len b member, looked.bytes b member]

/-- The header block is collected where it lies, and what is behind it is still to be read. -/
theorem split_atBody {d : HttpMgmt} {b : BufId} {rest : List BufId} {offset : Nat} (within : offset ≤ (d.bufs b).len.toNat) :
    collected (atBody b rest free offset) d = (contents d (b :: rest)).flatten.take offset ∧
      remaining (atBody b rest free offset) d = (contents d (b :: rest)).flatten.drop offset := by
  have first : (d.bufs b).buf.slice 0 (d.bufs b).len.toNat =
      (d.bufs b).buf.slice 0 offset ++ (d.bufs b).buf.slice offset ((d.bufs b).len.toNat - offset) := by
    have parts := Mem.slice_add (d.bufs b).buf 0 offset ((d.bufs b).len.toNat - offset)
    rwa [Nat.add_sub_of_le within, Nat.zero_add] at parts
  have whole : (contents d (b :: rest)).flatten = (d.bufs b).buf.slice 0 offset ++
      ((d.bufs b).buf.slice offset ((d.bufs b).len.toNat - offset) ++ (contents d rest).flatten) := by
    rw [contents, List.map_cons, List.flatten_cons, first, List.append_assoc]
    rfl
  have size : ((d.bufs b).buf.slice 0 offset).length = offset := Mem.slice_length _ _ _
  rw [whole]
  exact ⟨(List.take_left' size).symm, (List.drop_left' size).symm⟩

/-- Up to its loop `httpParse` looks at the header block and takes the first buffer off the list. -/
theorem wp_parseStart {e : Fault → Prop} (read : ReadIn c l free w) :
    Wp (parseStart c) (Started c l free w.data (bodyAt (w.data.ctxs c).isChunk (firstBytes w.data l) free)) e w := by
  obtain ⟨b, rest, rfl⟩ := List.exists_cons_of_ne_nil read.nonempty
  obtain ⟨R, ran, items, home⟩ := exists_init read.bare
  have todo : R.items (.readTodo c) = some (b :: rest) := by rw [items, update_of_ne (by simp), read.todo]
  have pool : R.items .caches = some free := by rw [items, update_of_ne (by simp), read.pool]
  have chunk : R.items .chunk = some [] := by rw [items, update_self]
  have sits (b' : BufId) (member : b' ∈ b :: rest) : R.home b' = some (.readTodo c) := Rings.home_of_mem todo member
  have outside (b' : BufId) (member : b' ∈ b :: rest) : R.home b' ≠ some .caches := by
    rw [sits b' member]
    simp
  rw [parseStart, wp_bind]
  refine wp_perform_of_done ran ?_
  rw [wp_bind]
  refine (wp_head _ _).mpr ⟨fun l' same => ?_, fun none => by cases todo.symm.trans none⟩
  cases todo.symm.trans same
  rw [List.head?_cons]
  dsimp only
  rw [wp_bind]
  refine wp_httpChunkCheck (w := ⟨w.data, R⟩) pool (read.sizes b List.mem_cons_self) outside (firstBytes w.data (b :: rest))
    (firstBytes_cons w.data b rest) (outside b List.mem_cons_self) fun d looked => ?_
  have isChunk := looked.isChunk
  have gone (offset : Nat) (post : DevState → Prop) (next : ∀ R', R'.items = update R.items (.readTodo c) (some rest) →
      R'.home = update R.home b none → post ⟨d, R'⟩) : Wp (listDel b) (fun _ u => post u) e ⟨d, R⟩ := by
    refine wp_del_of_home (w := ⟨d, R⟩) todo (sits b List.mem_cons_self) fun R' items' home' => next R' ?_ home'
    rw [items', List.erase_cons_head]
  cases found : headEnd (firstBytes w.data (b :: rest)) with
  | none =>
    have result : checked (firstBytes w.data (b :: rest)) free = (some 0, false) := by rw [checked, found]
    have never : bodyAt (w.data.ctxs c).isChunk (firstBytes w.data (b :: rest)) free = none := by rw [bodyAt, found]
    rw [result, never]
    dsimp only
    rw [wp_bind, wp_getCtx, wp_ite]
    split
    next => exact .quits rfl 0 rfl le_rfl
    next =>
      rw [wp_bind]
      exact gone 0 _ fun R' _ _ => .idle rfl _ rfl rfl
  | some offset =>
    obtain ⟨within, least, _⟩ := headEnd_eq_some found
    by_cases none : free = []
    · have result : checked (firstBytes w.data (b :: rest)) free = (Option.none, false) := by
        rw [checked, found]
        exact if_pos none
      have never : bodyAt (w.data.ctxs c).isChunk (firstBytes w.data (b :: rest)) free = Option.none := by
        rw [bodyAt, found]
        exact if_neg fun both => both.1 none
      rw [result, never]
      exact .quits rfl (-1) rfl (by decide)
    · have result : checked (firstBytes w.data (b :: rest)) free = (some offset, saysChunked ((firstBytes w.data (b :: rest)).take offset)) := by
        rw [checked, found]
        exact if_neg none
      rw [result] at isChunk ⊢
      have entered : bodyAt (w.data.ctxs c).isChunk (firstBytes w.data (b :: rest)) free =
          if (d.ctxs c).isChunk = true then some offset else Option.none := by
        rw [bodyAt, found, isChunk]
        simp [none]
      dsimp only
      rw [wp_bind, wp_getCtx, wp_ite]
      split
      next plain => exact .quits (entered.trans (if_neg plain)) 0 rfl le_rfl
      next chunked =>
        rw [wp_bind, entered, if_pos (not_not.mp chunked)]
        refine gone offset _ fun R' items' home' => ?_
        have size := read.sizes b List.mem_cons_self
        have sizes (b' : BufId) (member : b' ∈ b :: rest) : 0 < (d.bufs b').len ∧ (d.bufs b').len ≤ httpBufSize := by
          rw [looked.len b' member]
          exact read.sizes b' member
        have inside : offset ≤ (d.bufs b).len.toNat := by
          rw [looked.len b List.mem_cons_self]
          rwa [firstBytes_cons, Mem.slice_length] at within
        have small := sizes b List.mem_cons_self
        obtain ⟨front, back⟩ := @split_atBody free d b rest offset inside
        have same := contents_checked looked
        have nodup := R.nodup _ _ todo
        have length : (collected (atBody b rest free offset) d).length = offset := by
          rw [collected, List.length_append, Mem.slice_length]
          exact Nat.zero_add offset
        refine .begins offset rfl b rest _ rfl ⟨?_, ?_, rfl, rfl, rfl, by decide⟩ ?_
          (effort_atBody nodup fun b' member => (sizes b' member).2)
        · constructor
          case todo => rw [items', update_self]; rfl
          case done => rw [items', update_of_ne (by simp), chunk]; rfl
          case free => rw [items', update_of_ne (by simp), pool]; rfl
          case away => rw [home']; exact update_self _ _ _
          case awayLast => rw [home']; exact update_self _ _ _
          case same => exact ⟨fun _ => rfl, fun _ => rfl⟩
          case sizes => exact sizes
          case inside =>
            simp only [atBody]
            omega
          case count => rfl
          case room => exact le_rfl
          case kept =>
            intro b' member
            by_cases own : b' = b
            · exact .inl own
            · refine .inr (.inr (.inl ?_))
              rw [home', update_of_ne own, sits b' member]
        · rw [length]
          refine ⟨rfl, rfl, rfl, rfl, ?_, rfl, rfl, ?_⟩
          · simp only [atBody]
            omega
          · have positive : lrln.length = 4 := rfl
            simp only [Decoder.init]
            omega
        · rw [ahead, front, back, same]

theorem Started.pos {d : HttpMgmt} {u : DevState} {offset : Nat} {first : List Byte} {chunked : Bool} {start : Int ⊕ Decoder}
    (_ : Started c l free d (bodyAt chunked first free) start u) (entered : bodyAt chunked first free = some offset) : 0 < free.length := by
  unfold bodyAt at entered
  split at entered
  next => cases entered
  next =>
    split at entered
    next both => exact List.length_pos_iff.mpr both.1
    next => cases entered

/-- What `httpParse` comes to where the bytes do not lead astray. -/
theorem wp_parseLoop {start : Int ⊕ Decoder} {u : DevState} {d : HttpMgmt} {chunked : Bool} {first : List Byte}
    (started : Started c l free d (bodyAt chunked first free) start u)
    (sound : ∀ offset, bodyAt chunked first free = some offset →
      (decodeBytes (.line []) ((contents d l).flatten.drop offset)).2 ≠ .stray) :
    Wp (parseLoop c start) (fun rc v => rc ≤ 0 ∧ ∀ offset, bodyAt chunked first free = some offset →
      (decodeBytes (.line []) ((contents d l).flatten.drop offset)).2 = .finished →
        rc = 0 ∧ Decoded c l ((contents d l).flatten.take offset ++
          (decodeBytes (.line []) ((contents d l).flatten.drop offset)).1) v) (fun _ => False) u := by
  cases id started with
  | quits none rc same least =>
    rw [same, parseLoop, wp_pure]
    exact ⟨least, fun offset some => by cases none.symm.trans some⟩
  | idle none v same rc =>
    rw [same, parseLoop, wp_bind, decodeFuel]
    refine wp_decode_succ.mpr ?_
    rw [if_neg (by omega), wp_bind, wp_when]
    exact ⟨fun negative => by omega, fun _ => ⟨rc.le, fun offset some => by cases none.symm.trans some⟩⟩
  | begins offset some b rest v same here all few =>
    have stray := sound offset some
    have pos := started.pos some
    rw [same, parseLoop, wp_bind]
    refine wp_post (wp_decode pos here (by rw [all]; exact stray) few) fun v' u' ended => ?_
    rw [all] at ended
    rw [wp_bind, wp_when]
    cases ended with
    | finished rc verdict decoded =>
      refine ⟨fun negative => by omega, fun _ => ⟨rc.le, fun offset' some' _ => ?_⟩⟩
      cases some.symm.trans some'
      exact ⟨rc, decoded⟩
    | refused rc verdict freed =>
      refine ⟨fun _ => wp_post freed fun _ _ _ => ⟨rc.le, fun offset' some' finished => ?_⟩, fun positive => absurd rc positive⟩
      cases some.symm.trans some'
      cases verdict.symm.trans finished

end

/-! The response of a valid body. -/

section
variable {c : CtxId} {l free : List BufId} {w : DevState} {header body data : List Byte}

theorem bodyAt_of_declares (block : HeaderBlock header) (zeroless : (0 : Byte) ∉ header) (declares : DeclaresChunked header)
    (room : free ≠ []) (chunked : Bool) (rest : List Byte) : bodyAt chunked (header ++ rest) free = some header.length := by
  rw [bodyAt, headEnd_of_block block zeroless]
  dsimp only
  rw [List.take_left, saysChunked_of_declares declares, Bool.or_true, if_pos ⟨room, rfl⟩]

end

/-! Surviving every response. -/

/-- One round of the loop. -/
def Round (c : CtxId) (p q : Decoder × DevState) : Prop := 0 < p.1.rc ∧ (decodeStep c p.1).run p.2 = .ok q

/-- The loop is reached with these variables in this state. -/
def InLoop (c : CtxId) (w : DevState) (p : Decoder × DevState) : Prop :=
  ∃ v u, (parseStart c).run w = .ok (.inr v, u) ∧ Relation.ReflTransGen (Round c) (v, u) p

/-- `httpParse` returns, which it does not where it follows a missing buffer or goes on for ever. It
returns no positive number, the size of every chunk is parsed, and every round takes input or changes
the state. -/
structure Survives (c : CtxId) (w : DevState) : Prop where
  returns : ∃ rc u, (httpParse c).run w = .ok (rc, u) ∧ rc ≤ 0
  parsed : ∀ p q, InLoop c w p → Round c p q → Parsed p.1 q.1
  moves : ∀ p q, InLoop c w p → Round c p q → 0 < q.1.rc → Moved p.1 q.1

section
variable {c : CtxId} {k : Nat} {S l free : List BufId} {w : DevState}

/-- The loop is over, or stands at a place from which the bytes do not lead astray. -/
def Safe (c : CtxId) (k : Nat) (S : List BufId) (p : Decoder × DevState) : Prop :=
  ¬ 0 < p.1.rc ∨ ∃ r place, At c k S r place p.1 p.2 ∧ (ahead r place p.2.data).2 ≠ .stray

theorem Safe.round {p q : Decoder × DevState} (pos : 0 < k) (safe : Safe c k S p) (round : Round c p q) :
    Safe c k S q ∧ Parsed p.1 q.1 ∧ (0 < q.1.rc → Moved p.1 q.1) := by
  obtain ⟨r, place, here, sound⟩ := safe.resolve_left (not_not.mpr round.1)
  cases wp_of_run round.2 (decode_round pos here) with
  | further r' place' here' same _ moved parsed => exact ⟨.inr ⟨r', place', here', by rw [same]; exact sound⟩, parsed, fun _ => moved⟩
  | finished rc _ _ parsed => exact ⟨.inl (by omega), parsed, fun positive => by omega⟩
  | refused rc _ same _ =>
    refine ⟨.inl (by omega), fun now next => ?_, fun positive => by omega⟩
    cases now.symm.trans (same.symm.trans next)
  | unparsed stray => exact absurd stray sound
  | stuck stray => exact absurd stray sound

theorem Safe.rounds {p q : Decoder × DevState} (pos : 0 < k) (safe : Safe c k S p) (rounds : Relation.ReflTransGen (Round c) p q) :
    Safe c k S q := by
  induction rounds with
  | refl => exact safe
  | tail _ round ih => exact (ih.round pos round).1

/-- A loop that comes to an end gets through each of its rounds. -/
theorem exists_round {fuel : Nat} {v : Decoder} {u : DevState} {result : Decoder × DevState}
    (ends : (decode c fuel v).run u = .ok result) (goes : 0 < v.rc) :
    ∃ fuel' v' u', fuel = fuel' + 1 ∧ Round c (v, u) (v', u') ∧ (decode c fuel' v').run u' = .ok result := by
  cases fuel with
  | zero => cases ends
  | succ fuel =>
    have total : Wp (decode c (fuel + 1) v) (fun v u => result = (v, u)) (fun _ => False) u :=
      wp_total.mpr ⟨result.1, result.2, ends, rfl⟩
    rw [wp_decode_succ, if_pos goes] at total
    obtain ⟨v', u', ran, rest⟩ := wp_total.mp total
    obtain ⟨_, _, ran', rfl⟩ := wp_total.mp rest
    exact ⟨fuel, v', u', rfl, ⟨goes, ran⟩, ran'⟩

/-- No bytes are copied where their number is negative. -/
theorem wp_copyChunk_of_negative {err : Fault → Prop} {post : Decoder → DevState → Prop} {p : Place} {n count : Nat} {size : Int}
    {v : Decoder} {u : DevState} (tracks : Tracks p n v) (negative : size < 0) (j : v.j = 0) (next : post v u) :
    Wp (copyChunk size (count + 1) v) post err u := by
  rw [copyChunk, wp_bind]
  refine wp_current tracks ?_
  dsimp only
  rw [wp_ite, if_neg fun both => by omega]
  exact next

/-- The decoder is stuck in front of bytes, which it does not take. -/
def StuckInside (c : CtxId) (k : Nat) (S : List BufId) (v : Decoder) (w : DevState) : Prop :=
  Stuck c k S v w ∧ ∀ b, v.bufInfo = some b → v.offset ≠ (w.data.bufs b).len

theorem wp_decodeStep_of_inside {v : Decoder} {u : DevState} (inside : StuckInside c k S v u) :
    Wp (decodeStep c v) (fun v' _ => 0 < v'.rc ∧ ¬ Moved v v') (fun _ => False) u := by
  obtain ⟨⟨p, n, size, stands, tracks, state, sized, negative, j⟩, inside⟩ := inside
  have other := inside p.b tracks.bufInfo
  rw [decodeStep, state]
  dsimp only
  rw [chunkGetSize, wp_bind, wp_deref]
  refine ⟨fun size' same => ?_, fun none => by cases none.symm.trans sized⟩
  cases same.symm.trans sized
  dsimp only
  rw [wp_bind]
  refine wp_copyChunk_of_negative tracks negative j ?_
  rw [wp_bind]
  refine wp_current tracks ?_
  dsimp only
  rw [if_neg other, if_neg (by omega), wp_pure]
  refine ⟨tracks.rc, ?_⟩
  rintro (moved | moved | moved)
  · exact moved rfl
  · exact moved rfl
  · exact lt_irrefl _ moved

theorem wp_decodeStep_of_stuck {v : Decoder} {u : DevState} (stuck : Stuck c k S v u) :
    Wp (decodeStep c v) (fun v' u' => StuckInside c k S v u ∨ StuckInside c k S v' u') (fun _ => True) u := by
  obtain ⟨p, n, size, stands, tracks, state, sized, negative, j⟩ := id stuck
  by_cases atEnd : (p.offset : Int) = (u.data.bufs p.b).len
  · rw [decodeStep, state]
    dsimp only
    rw [chunkGetSize, wp_bind, wp_deref]
    refine ⟨fun size' same => ?_, fun _ => trivial⟩
    cases same.symm.trans sized
    dsimp only
    rw [wp_bind]
    refine wp_copyChunk_of_negative tracks negative j ?_
    rw [wp_bind]
    refine wp_current tracks ?_
    dsimp only
    rw [if_pos (tracks.offset.trans atEnd), wp_bind]
    refine wp_nextChunkBuf stands tracks.bufInfo tracks.lastBuf fun R left => ?_
    rw [wp_bind, wp_deref]
    refine ⟨fun next first => ?_, fun _ => trivial⟩
    obtain ⟨rest, more⟩ : ∃ rest, p.todo = next :: rest := by
      cases more : p.todo with
      | nil => rw [more] at first; cases first
      | cons b rest => rw [more] at first; cases first; exact ⟨rest, rfl⟩
    rw [wp_bind]
    refine wp_listDel_next stands atEnd more left fun R' stands' => .inr ⟨⟨p.next next rest, n, size, stands',
      tracks.next rfl rfl ⟨rfl, rfl, rfl, rfl, rfl⟩, state, sized, negative, j⟩, fun b same => ?_⟩
    cases same
    exact (stands'.sizes next List.mem_cons_self).1.ne
  · refine wp_of_forall fun v' u' => .inl ⟨stuck, fun b same => ?_⟩
    cases same.symm.trans tracks.bufInfo
    rw [tracks.offset]
    exact atEnd

/-- Once it is stuck the decoder does not survive. -/
theorem not_survives_of_inside {v : Decoder} {u : DevState} (inside : StuckInside c k S v u) (loop : InLoop c w (v, u))
    (survives : Survives c w) : False := by
  obtain ⟨v', u', ran, goes, still⟩ := wp_total.mp (wp_decodeStep_of_inside inside)
  obtain ⟨_, _, _, _, tracks, _⟩ := inside.1
  exact still (survives.moves (v, u) (v', u') loop ⟨tracks.rc, ran⟩ goes)

theorem InLoop.round {p q : Decoder × DevState} (loop : InLoop c w p) (round : Round c p q) : InLoop c w q := by
  obtain ⟨v, u, ran, rounds⟩ := loop
  exact ⟨v, u, ran, rounds.tail round⟩

/-- From a place where the bytes lead astray the decoder does not get to an end. -/
theorem not_survives_of_stray (pos : 0 < k) {r : Reader} {p : Place} {v : Decoder} {u : DevState} (here : At c k S r p v u)
    (stray : (ahead r p u.data).2 = .stray) (loop : InLoop c w (v, u)) (survives : Survives c w) {fuel : Nat}
    {result : Decoder × DevState} (ends : (decode c fuel v).run u = .ok result) : False := by
  induction fuel generalizing r p v u with
  | zero => cases ends
  | succ fuel ih =>
    obtain ⟨_, v', u', same, round, ends⟩ := exists_round ends here.tracks.rc
    cases same
    have loop' := loop.round round
    cases wp_of_run round.2 (decode_round pos here) with
    | further r' p' here' same => exact ih here' (by rw [same]; exact stray) loop' ends
    | finished _ verdict => cases verdict.symm.trans stray
    | refused _ verdict => cases verdict.symm.trans stray
    | unparsed _ line none =>
      have some := survives.parsed _ _ loop round line.1 line.2
      rw [none] at some
      cases some
    | stuck _ stuck =>
      obtain ⟨_, _, _, _, tracks, _⟩ := id stuck
      obtain ⟨_, v'', u'', _, round', _⟩ := exists_round ends tracks.rc
      rcases wp_of_run round'.2 (wp_decodeStep_of_stuck stuck) with inside | inside
      · exact not_survives_of_inside inside loop' survives
      · exact not_survives_of_inside inside (loop'.round round') survives

/-- Where the body leads astray, the decoder does not survive. -/
theorem not_survives (read : ReadIn c l free w) {offset : Nat}
    (entered : bodyAt (w.data.ctxs c).isChunk (firstBytes w.data l) free = some offset)
    (strays : Strays ((contents w.data l).flatten.drop offset)) : ¬ Survives c w := by
  intro survives
  have start := wp_parseStart (e := fun _ => False) read
  obtain ⟨s, u, ran, started⟩ := wp_total.mp start
  have stray := strays_iff.mpr strays
  cases id started with
  | quits none => cases none.symm.trans entered
  | idle none => cases none.symm.trans entered
  | begins offset' some b rest v same here all few =>
    cases some.symm.trans entered
    obtain ⟨rc, u', returned, _⟩ := survives.returns
    have total : Wp (httpParse c) (fun _ _ => True) (fun _ => False) w := wp_total.mpr ⟨rc, u', returned, trivial⟩
    have loop := wp_of_run ran (wp_httpParse.mp total)
    rw [same, parseLoop, wp_bind] at loop
    obtain ⟨v', u'', ends, _⟩ := wp_total.mp loop
    exact not_survives_of_stray (started.pos entered) here (by rw [all]; exact stray) ⟨v, u, same ▸ ran, .refl⟩ survives ends

/-- Where it does not, the decoder survives. -/
theorem survives_of_sound (read : ReadIn c l free w)
    (sound : ∀ offset, bodyAt (w.data.ctxs c).isChunk (firstBytes w.data l) free = some offset →
      ¬ Strays ((contents w.data l).flatten.drop offset)) : Survives c w := by
  have start := wp_parseStart (e := fun _ => False) read
  have sound' (offset : Nat) (entered : bodyAt (w.data.ctxs c).isChunk (firstBytes w.data l) free = some offset) :
      (decodeBytes (.line []) ((contents w.data l).flatten.drop offset)).2 ≠ .stray :=
    fun stray => sound offset entered (strays_iff.mp stray)
  have safe (p : Decoder × DevState) (loop : InLoop c w p) : ∃ k S, 0 < k ∧ Safe c k S p := by
    obtain ⟨v, u, ran, rounds⟩ := loop
    have started := wp_of_run ran (wp_parseStart (e := fun _ => False) read)
    cases id started with
    | quits _ _ same => cases same
    | idle _ v' same rc =>
      cases same
      exact ⟨1, [], Nat.one_pos, Safe.rounds Nat.one_pos (.inl (show ¬ 0 < v.rc by omega)) rounds⟩
    | begins offset some b rest v' same here all =>
      cases same
      have pos := started.pos some
      exact ⟨_, _, pos, Safe.rounds pos (.inr ⟨_, _, here, by rw [all]; exact sound' offset some⟩) rounds⟩
  have total := wp_httpParse.mpr (wp_post start fun s u started => wp_parseLoop started sound')
  obtain ⟨rc, u, ran, least, _⟩ := wp_total.mp total
  refine ⟨⟨rc, u, ran, least⟩, fun p q loop round => ?_, fun p q loop round => ?_⟩
  · obtain ⟨k, S, pos, safe⟩ := safe p loop
    exact (safe.round pos round).2.1
  · obtain ⟨k, S, pos, safe⟩ := safe p loop
    exact (safe.round pos round).2.2

/-- The decoder survives a response exactly where its body does not lead astray, if it gets to the body. -/
theorem survives_iff (read : ReadIn c l free w) : Survives c w ↔
    ∀ offset, bodyAt (w.data.ctxs c).isChunk (firstBytes w.data l) free = some offset →
      ¬ Strays ((contents w.data l).flatten.drop offset) :=
  ⟨fun survives _ entered strays => not_survives read entered strays survives, survives_of_sound read⟩

end

/-! Responses. -/

/-- A response that ends with the data of a chunk. -/
def cutBody : List Byte := text "5\r\nhello"

/-- A response in some buffers that were read. -/
theorem exists_readIn (c : CtxId) (blocks : List (List Byte)) (few : blocks.length < httpBufCaches) (some : blocks ≠ [])
    (sizes : ∀ block ∈ blocks, block ≠ [] ∧ block.length ≤ httpBufSize) :
    ∃ (w : DevState) (l free : List BufId), ReadIn c l free w ∧ free ≠ [] ∧ contents w.data l = blocks := by
  obtain ⟨w, l, free, hangs, pool, room, bare, holds, lens, _⟩ := exists_reads c blocks few
  refine ⟨w, l, free, ⟨hangs, ?_, fun b member => ?_, pool, ?_⟩, room, holds⟩
  · rintro rfl
    exact some holds.symm
  · obtain ⟨block, own, len⟩ := lens b member
    have positive := List.length_pos_iff.mpr (sizes block own).1
    have most := (sizes block own).2
    rw [len]
    omega
  · rintro l' same
    rw [bare] at same
    cases same

/-- The response is cut in a size line, between the bytes of two line ends and in the data. -/
def wholeBlocks : List (List Byte) :=
  [chunkedBlock ++ text "5", text "\r", text "\nhel", text "lo\r", text "\n0\r", text "\n\r\n"]

theorem survives_hello : ∃ (w : DevState) (l free : List BufId), contents w.data l = wholeBlocks ∧
    (Survives ⟨0, by decide⟩ w ↔
      ∀ offset, bodyAt (w.data.ctxs ⟨0, by decide⟩).isChunk (firstBytes w.data l) free = some offset →
        ¬ Strays ((contents w.data l).flatten.drop offset)) := by
  obtain ⟨w, l, free, read, _, holds⟩ := exists_readIn ⟨0, by decide⟩ wholeBlocks (by decide) (by decide) (by decide +kernel)
  exact ⟨w, l, free, holds, survives_iff read⟩

theorem cutBody_kills : ∃ (w : DevState) (l free : List BufId), ReadIn ⟨0, by decide⟩ l free w ∧
    contents w.data l = [chunkedBlock ++ cutBody] ∧ ¬ Survives ⟨0, by decide⟩ w := by
  obtain ⟨w, l, free, read, room, holds⟩ := exists_readIn ⟨0, by decide⟩ [chunkedBlock ++ cutBody] (by decide) (by simp)
    (by decide +kernel)
  have entered := bodyAt_of_declares headerBlock_chunkedBlock (by decide +kernel) (by decide +kernel) room (w.data.ctxs ⟨0, by decide⟩).isChunk cutBody
  refine ⟨w, l, free, read, holds, @not_survives _ _ _ _ read chunkedBlock.length ?_ ?_⟩
  · rw [firstBytes, holds, List.headD_cons]
    exact entered
  · rw [holds, List.flatten_singleton, List.drop_left]
    have line : Line (text "5") := ⟨by decide, by decide⟩
    have size : sscanfHex (text "5") = some ((5 : Nat) : Int) := by decide
    exact .cut line size (by decide) (by decide)

end WebTunnel.Device.Chunked
