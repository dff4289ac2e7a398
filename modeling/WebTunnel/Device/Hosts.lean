import Mathlib.Data.Int.ConditionallyCompleteOrder
import WebTunnel.Device.Reassembly
import WebTunnel.Device.Texts

/-! The copies of host names that are made while a frame from the server is handled, and the places of
the arrays of 128 bytes that they write. -/

namespace WebTunnel.Device.Hosts
open Library.Bytes Library.Occurrences Library.Routines Library.Routines.Routine Function Device.Types Buffers Parsing Texts Http Forward
open Manager Server.Wire

/-- The places that `memcpy` and `strncpy` write, whose length is an `int` where they are called. -/
def copied (n : Int) : Set Int := {i | 0 ≤ i ∧ i < toUnsigned 32 n}

/-- The places that a request to open a forward writes in `host`: the name, and two zeros behind it. -/
def commandWrites (len : Int) : Set Int := copied (len - 8) ∪ {len - 8, len - 7}

/-- What stands between the first `host:` of a text and the end of its line. -/
def hostLine (buf : List Byte) : Option (List Byte) := do
  let p ← strstr (text "host:") buf
  let rest := buf.drop (p + 5)
  let q ← strstr (text "\r\n") rest
  return rest.take q

/-- The places that `get_host_from_buf` writes: the whole line and a zero in its own array, and then in that of
the context what comes in front of a colon, or again the line and a zero. -/
def nameWrites (line : List Byte) : Set Int :=
  copied line.length ∪ {(line.length : Int)} ∪
    match strstr (text ":") line with
    | some r => copied r
    | none => copied line.length ∪ {(line.length : Int)}

/-- The places that are written for the host in the first buffer of a request. A search that neither
finds it nor comes to a zero goes on behind the buffer, and what it finds there is not known. -/
def searchWrites (bytes : List Byte) : Set Int :=
  match hostLine (cString bytes) with
  | some line => nameWrites line
  | none => if (0 : Byte) ∈ bytes then ∅ else Set.univ

/-- The places of arrays for host names that are written while the frame is handled that was put together. -/
def hostWrites (w : DevState) : Set Int :=
  match w.rings.items .prepare with
  | some (b :: _) =>
    if w.data.bufPrepare.type = httpCForward then
      if w.data.bufPrepare.len < 8 ∨ natBE ((w.data.bufs b).buf.slice 4 4) = 1 then ∅
      else commandWrites (w.data.bufs b).len
    else if w.data.bufPrepare.type = httpCReq ∧ w.data.ctxCaches ≠ [] then
      searchWrites ((w.data.bufs b).buf.slice 0 bufRoom)
    else ∅
  | _ => ∅

/-- All of them lie in arrays of 128 bytes. -/
def HostsFit (w : DevState) : Prop := hostWrites w ⊆ Set.Icc 0 127

/-- The host named in the first buffer is found before the buffer ends, if there is one, and shorter than 128 bytes. -/
def ShortLine (bytes : List Byte) : Prop :=
  ((0 : Byte) ∈ bytes ∨ hostLine (cString bytes) ≠ none) ∧ ∀ line, hostLine (cString bytes) = some line → line.length < 128

/-- The first buffer of a request to open a forward has between 8 and 134 bytes, that of a browser's request
a short host. -/
def Short (w : DevState) : Prop :=
  ∀ b rest, w.rings.items .prepare = some (b :: rest) →
    (w.data.bufPrepare.type = httpCForward → 8 ≤ w.data.bufPrepare.len → natBE ((w.data.bufs b).buf.slice 4 4) ≠ 1 →
      8 ≤ (w.data.bufs b).len ∧ (w.data.bufs b).len ≤ 134) ∧
    (w.data.bufPrepare.type = httpCReq → w.data.ctxCaches ≠ [] → ShortLine ((w.data.bufs b).buf.slice 0 bufRoom))

section
variable {buf line bytes : List Byte} {len : Int} {w : DevState}

theorem copied_subset {n : Nat} (small : n ≤ 128) : copied n ⊆ Set.Icc 0 127 := by
  have same : toUnsigned 32 (n : Int) = n := by
    unfold toUnsigned
    omega
  rintro i ⟨positive, less⟩
  rw [same] at less
  constructor
  · exact positive
  · omega

theorem commandWrites_subset_iff : commandWrites len ⊆ Set.Icc 0 127 ↔ 8 ≤ len ∧ len ≤ 134 := by
  constructor
  · intro fits
    have first : len - 8 ∈ Set.Icc (0 : Int) 127 := fits (.inr (.inl rfl))
    have second : len - 7 ∈ Set.Icc (0 : Int) 127 := fits (.inr (.inr rfl))
    obtain ⟨low, _⟩ := first
    obtain ⟨_, high⟩ := second
    constructor <;> omega
  · rintro ⟨low, high⟩
    have size : len - 8 = ((len - 8).toNat : Int) := by omega
    have name : copied (len - 8) ⊆ Set.Icc 0 127 := by
      rw [size]
      exact copied_subset (by omega)
    have zero : len - 8 ∈ Set.Icc (0 : Int) 127 := ⟨by omega, by omega⟩
    have zero' : len - 7 ∈ Set.Icc (0 : Int) 127 := ⟨by omega, by omega⟩
    rintro i (member | member | member)
    · exact name member
    · rwa [member]
    · rwa [Set.mem_singleton_iff.mp member]

theorem nameWrites_subset_iff : nameWrites line ⊆ Set.Icc 0 127 ↔ line.length < 128 := by
  constructor
  · intro fits
    have zero : (line.length : Int) ∈ Set.Icc (0 : Int) 127 := fits (.inl (.inr rfl))
    obtain ⟨_, high⟩ := zero
    omega
  · intro short
    have zero : (line.length : Int) ∈ Set.Icc (0 : Int) 127 := ⟨Int.natCast_nonneg _, by omega⟩
    have whole : copied line.length ∪ {(line.length : Int)} ⊆ Set.Icc 0 127 := by
      rintro i (member | member)
      · exact copied_subset short.le member
      · rwa [Set.mem_singleton_iff.mp member]
    refine Set.union_subset whole ?_
    cases colon : strstr (text ":") line with
    | none => exact whole
    | some r =>
      have before := (firstAt_of_strstr colon).1
      exact copied_subset (by omega)

theorem searchWrites_subset_iff : searchWrites bytes ⊆ Set.Icc 0 127 ↔ ShortLine bytes := by
  rw [searchWrites, ShortLine]
  cases found : hostLine (cString bytes) with
  | some line =>
    simp only [nameWrites_subset_iff, ne_eq, reduceCtorEq, not_false_eq_true, or_true, true_and, Option.some.injEq, forall_eq']
  | none =>
    simp only [ne_eq, not_true_eq_false, or_false, reduceCtorEq, false_implies, implies_true, and_true]
    split
    next ends => exact ⟨fun _ => ends, fun _ => Set.empty_subset _⟩
    next endless =>
      refine ⟨fun fits => ?_, fun ends => absurd ends endless⟩
      have outside : (128 : Int) ∈ Set.Icc (0 : Int) 127 := fits (Set.mem_univ 128)
      exact absurd outside.2 (by decide)

/-- The copies of host names stay in their arrays exactly where the first buffer is short enough. -/
theorem hosts_fit_iff (w : DevState) : HostsFit w ↔ Short w := by
  rw [HostsFit, hostWrites]
  cases items : w.rings.items .prepare with
  | none =>
    refine ⟨fun _ b rest same => ?_, fun _ => Set.empty_subset _⟩
    cases items.symm.trans same
  | some saved =>
    cases saved with
    | nil =>
      refine ⟨fun _ b rest same => ?_, fun _ => Set.empty_subset _⟩
      cases items.symm.trans same
    | cons b rest =>
      have first : Short w ↔
          (w.data.bufPrepare.type = httpCForward → 8 ≤ w.data.bufPrepare.len → natBE ((w.data.bufs b).buf.slice 4 4) ≠ 1 →
            8 ≤ (w.data.bufs b).len ∧ (w.data.bufs b).len ≤ 134) ∧
          (w.data.bufPrepare.type = httpCReq → w.data.ctxCaches ≠ [] → ShortLine ((w.data.bufs b).buf.slice 0 bufRoom)) := by
        refine ⟨fun short => short b rest items, fun short b' rest' same => ?_⟩
        cases items.symm.trans same
        exact short
      have other : httpCForward ≠ httpCReq := by decide
      rw [first]
      simp only
      split
      next forward =>
        simp only [forward, forall_true_left, other, false_implies, and_true]
        split
        next none =>
          have outside (long : 8 ≤ w.data.bufPrepare.len) (opens : natBE ((w.data.bufs b).buf.slice 4 4) ≠ 1) : False := by
            rcases none with short | closes
            · omega
            · exact opens closes
          exact ⟨fun _ long opens => (outside long opens).elim, fun _ => Set.empty_subset _⟩
        next copies =>
          obtain ⟨long, opens⟩ := not_or.mp copies
          rw [commandWrites_subset_iff]
          exact ⟨fun fits _ _ => fits, fun short => short (by omega) opens⟩
      next noForward =>
        simp only [noForward, false_implies, true_and]
        split
        next request =>
          rw [searchWrites_subset_iff]
          exact ⟨fun short _ _ => short, fun short => short request.1 request.2⟩
        next nothing =>
          exact ⟨fun _ request free => absurd ⟨request, free⟩ nothing, fun _ => Set.empty_subset _⟩

end

/-! The copies in what handles the frames. -/

section
variable {post : Int → DevState → Prop} {err : Fault → Prop} {w : DevState} {b : BufId} {rest : List BufId} {c : CtxId}

/-- A request to open a forward goes on with the name where the copies fit, and stops where they do not. -/
theorem wp_forwardCommand_opens (first : w.rings.items .prepare = some (b :: rest))
    (opens : natBE ((w.data.bufs b).buf.slice 4 4) ≠ 1) :
    Wp forwardCommand post err w ↔
      (commandWrites (w.data.bufs b).len ⊆ Set.Icc 0 127 →
        Wp (do
          let _ ← tcpForwardCreate (natBE ((w.data.bufs b).buf.slice 0 2))
            (cString ((w.data.bufs b).buf.slice 8 ((w.data.bufs b).len - 8).toNat)) (natBE ((w.data.bufs b).buf.slice 2 2))
          releasePrepare
          return 0 : DevM Int) post err w) ∧
      (¬ commandWrites (w.data.bufs b).len ⊆ Set.Icc 0 127 → err .outOfBounds) := by
  have size : (bufRoom : Int) = 2052 := rfl
  have two : Int.toNat 2 = 2 := rfl
  have four : Int.toNat 4 = 4 := rfl
  have field (start len : Int) (low : 0 ≤ start) (positive : 0 ≤ len) (small : start + len ≤ 8)
      (post : List Byte → DevState → Prop) :
      Wp (bytesAt b start len) post err w ↔ post ((w.data.bufs b).buf.slice start.toNat len.toNat) w := by
    have inside : 0 ≤ start ∧ 0 ≤ len ∧ start + len ≤ bufRoom := by omega
    rw [wp_bytesAt]
    simp only [inside, and_self, forall_true_left, not_true_eq_false, false_implies, and_true]
  rw [forwardCommand, wp_bind, wp_data, wp_bind, nextBufInfo, wp_head, first]
  simp only [Option.some.injEq, forall_eq', reduceCtorEq, false_implies, and_true, List.head?_cons]
  rw [wp_bind, wp_deref]
  simp only [Option.some.injEq, forall_eq', reduceCtorEq, false_implies, and_true]
  rw [wp_bind, field 0 2 (by decide) (by decide) (by decide), wp_bind, field 2 2 (by decide) (by decide) (by decide), wp_bind,
    field 4 4 (by decide) (by decide) (by decide)]
  simp only [Int.toNat_zero, two, four]
  rw [wp_ite, if_neg opens, wp_bind, wp_getBuf, wp_bind, wp_demand, wp_bind, wp_bytesAt, commandWrites_subset_iff]
  constructor
  · rintro ⟨fits, outside⟩
    refine ⟨fun within => ?_, fun without => ?_⟩
    · exact (fits (by omega)).1 (by omega)
    · by_cases room : (w.data.bufs b).len - 8 + 2 ≤ 128
      · exact (fits room).2 (by omega)
      · exact outside room
  · rintro ⟨fits, outside⟩
    refine ⟨fun room => ⟨fun inside => fits (by omega), fun short => outside (by omega)⟩, fun long => outside (by omega)⟩

/-- A host that is too long for its array is where `get_host_from_buf` writes outside. -/
theorem overflow_iff (buf : List Byte) :
    getHostFromBuf buf = .overflow ↔ ∃ line, hostLine buf = some line ∧ ¬ nameWrites line ⊆ Set.Icc 0 127 := by
  simp only [nameWrites_subset_iff, Nat.not_lt]
  rw [getHostFromBuf, hostLine]
  cases strstr (text "host:") buf with
  | none => simp
  | some p =>
    simp only [Option.bind_eq_bind, Option.bind_some]
    cases strstr (text "\r\n") (buf.drop (p + 5)) with
    | none => simp
    | some q =>
      simp only [Option.bind_some, Option.pure_def, Option.some.injEq, exists_eq_left']
      split
      next long => exact iff_of_true rfl long
      next short =>
        refine iff_of_false ?_ short
        cases strstr (text ":") ((buf.drop (p + 5)).take q) <;> simp

end

/-! A host name of 150 letters. -/

/-- A request to open a forward, as the server sends it. -/
def longHost : List Byte :=
  headerBytes httpCForward 5 (16 + 158) ++ (bytesBE 2 5 ++ bytesBE 2 80 ++ bytesBE 4 0 ++ List.replicate 150 0x61)

/-- The copy does not fit. -/
def overruns (w : DevState) : Bool :=
  match w.rings.items .prepare with
  | some (b :: _) =>
    decide (w.data.bufPrepare.type = httpCForward ∧ 8 ≤ w.data.bufPrepare.len ∧
      natBE ((w.data.bufs b).buf.slice 4 4) ≠ 1 ∧ 134 < (w.data.bufs b).len)
  | _ => false

theorem not_fit_of_overruns {w : DevState} (much : overruns w = true) : ¬ HostsFit w := by
  rw [hosts_fit_iff]
  intro short
  rw [overruns] at much
  split at much
  next b rest first =>
    obtain ⟨forward, long, opens, more⟩ := of_decide_eq_true much
    have most := ((short b rest first).1 forward long opens).2
    omega
  next => cases much

/-- The same of a frame that is complete. -/
def endsWithOverrun : Except Fault (Received × DevState) → Bool
  | .ok (.complete, w) => overruns w
  | _ => false

theorem complete_of_endsWithOverrun {result : Except Fault (Received × DevState)} (ends : endsWithOverrun result = true) :
    ∃ w, result = .ok (.complete, w) ∧ overruns w = true := by
  cases result with
  | error e => cases ends
  | ok ran =>
    obtain ⟨received, w⟩ := ran
    cases received with
    | returned rc => cases ends
    | complete => exact ⟨w, rfl, ends⟩

/-- The name is copied behind the end of its array. -/
theorem long_host_overruns : ∃ w, (collect longHost).run Reassembly.device = .ok (.complete, w) ∧ ¬ HostsFit w := by
  have ends : endsWithOverrun ((collect longHost).run Reassembly.device) = true := by decide +kernel
  obtain ⟨w, ran, much⟩ := complete_of_endsWithOverrun ends
  exact ⟨w, ran, not_fit_of_overruns much⟩

end WebTunnel.Device.Hosts
