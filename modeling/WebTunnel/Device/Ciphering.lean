import WebTunnel.Library.Blocks
import WebTunnel.Device.Pool
import WebTunnel.Device.Tunnel

/-! The cipher of the tunnel: it undoes itself, word by word and over the blocks of a buffer. -/

namespace WebTunnel.Device.Ciphering
open Library.Bytes Library.Blocks Library.Lists Library.Routines Library.Routines.Routine Function Device.Types Buffers Pool Tunnel

/-! Rounds. -/

theorem decryRound_encryRound (k : Key) (sum : Word) (v : Word × Word) :
    decryRound k sum (encryRound k sum v) = v := by
  unfold decryRound encryRound
  apply Prod.ext
  · simp only [BitVec.add_sub_cancel]
  · simp only [BitVec.add_sub_cancel]

/-- The values of `sum` in the rounds of `encry`. -/
def sums : Nat → Word → List Word
  | 0, _ => []
  | rounds + 1, sum => (sum + delta) :: sums rounds (sum + delta)

theorem sums_succ (count : Nat) (sum : Word) :
    sums (count + 1) sum = sums count sum ++ [sum + BitVec.ofNat 32 (count + 1) * delta] := by
  induction count generalizing sum with
  | zero =>
    rw [sums, sums, sums, List.nil_append, Nat.zero_add, BitVec.one_mul]
  | succ count ih =>
    have step : sum + delta + BitVec.ofNat 32 (count + 1) * delta = sum + BitVec.ofNat 32 (count + 1 + 1) * delta := by
      rw [BitVec.ofNat_add (count + 1) 1, BitVec.add_mul, BitVec.one_mul, BitVec.add_assoc, BitVec.add_comm delta]
    rw [sums, ih, step, sums, List.cons_append]

theorem encryRounds_eq (k : Key) (count : Nat) (sum : Word) (v : Word × Word) :
    encryRounds k count sum v = rounds (encryRound k) (sums count sum) v := by
  induction count generalizing sum v with
  | zero => rfl
  | succ count ih =>
    rw [encryRounds, ih, sums, rounds, rounds, List.foldl_cons]

theorem decryRounds_eq (k : Key) (count : Nat) (sum : Word) (v : Word × Word) :
    decryRounds k count (sum + BitVec.ofNat 32 count * delta) v = rounds (decryRound k) (sums count sum).reverse v := by
  induction count generalizing v with
  | zero => rfl
  | succ count ih =>
    have before : sum + BitVec.ofNat 32 (count + 1) * delta - delta = sum + BitVec.ofNat 32 count * delta := by
      rw [BitVec.ofNat_add, BitVec.add_mul, BitVec.one_mul, ← BitVec.add_assoc, BitVec.add_sub_cancel]
    rw [decryRounds, before, ih, sums_succ, List.reverse_append]
    rfl

theorem decry_encry (k : Key) (v : Word × Word) : decry k (encry k v) = v := by
  have last : (0xC6EF3720 : Word) = 0 + BitVec.ofNat 32 32 * delta := by decide
  rw [decry, encry, encryRounds_eq, last, decryRounds_eq]
  exact rounds_reverse (decryRound_encryRound k) _ v

theorem encryRound_decryRound (k : Key) (sum : Word) (v : Word × Word) :
    encryRound k sum (decryRound k sum v) = v := by
  unfold encryRound decryRound
  apply Prod.ext
  · simp only [BitVec.sub_add_cancel]
  · simp only [BitVec.sub_add_cancel]

theorem encry_decry (k : Key) (v : Word × Word) : encry k (decry k v) = v := by
  have last : (0xC6EF3720 : Word) = 0 + BitVec.ofNat 32 32 * delta := by decide
  have back := rounds_reverse (encryRound_decryRound k) (sums 32 0).reverse v
  rw [List.reverse_reverse] at back
  rw [decry, encry, encryRounds_eq, last, decryRounds_eq]
  exact back

/-! Blocks of bytes. -/

def word (bytes : List Byte) (i : Nat) : Word := BitVec.ofNat 32 (natLE ((bytes.drop i).take 4))

def cipherBlock (cipher : Word × Word → Word × Word) (bytes : List Byte) : List Byte :=
  bytesLE 4 (cipher (word bytes 0, word bytes 4)).1.toNat ++ bytesLE 4 (cipher (word bytes 0, word bytes 4)).2.toNat

theorem cipherBlock_length (cipher : Word × Word → Word × Word) (bytes : List Byte) :
    (cipherBlock cipher bytes).length = 8 := by
  rw [cipherBlock, List.length_append, bytesLE_length, bytesLE_length]

theorem bytesLE_natLE (l : List Byte) : bytesLE l.length (natLE l) = l := by
  have same := bytesBE_natBE l.reverse
  rw [List.length_reverse] at same
  rw [bytesLE, natLE, same, List.reverse_reverse]

theorem bytesLE_ofNat {l : List Byte} (four : l.length = 4) : bytesLE 4 (BitVec.ofNat 32 (natLE l)).toNat = l := by
  have small : natLE l < 2 ^ 32 := by
    have bound := natBE_lt l.reverse
    rwa [List.length_reverse, four] at bound
  have same := bytesLE_natLE l
  rw [four] at same
  rw [BitVec.toNat_ofNat, Nat.mod_eq_of_lt small, same]

theorem ofNat_natLE_bytesLE (x : Word) : BitVec.ofNat 32 (natLE (bytesLE 4 x.toNat)) = x := by
  rw [natLE_bytesLE]
  apply BitVec.eq_of_toNat_eq
  rw [BitVec.toNat_ofNat]
  exact Nat.mod_eq_of_lt (Nat.lt_of_le_of_lt (Nat.mod_le _ _) x.isLt) |>.trans (Nat.mod_eq_of_lt x.isLt)

theorem cipherBlock_cipherBlock {cipher undo : Word × Word → Word × Word} (undoes : ∀ v, undo (cipher v) = v)
    {bytes : List Byte} (eight : bytes.length = 8) : cipherBlock undo (cipherBlock cipher bytes) = bytes := by
  have first : word (cipherBlock cipher bytes) 0 = (cipher (word bytes 0, word bytes 4)).1 := by
    rw [word, cipherBlock, List.drop_zero, List.take_left' (bytesLE_length 4 _), ofNat_natLE_bytesLE]
  have second : word (cipherBlock cipher bytes) 4 = (cipher (word bytes 0, word bytes 4)).2 := by
    rw [word, cipherBlock, List.drop_left' (bytesLE_length 4 _), List.take_of_length_le (bytesLE_length 4 _).le,
      ofNat_natLE_bytesLE]
  have front : ((bytes.drop 0).take 4).length = 4 := by simp [eight]
  have behind : ((bytes.drop 4).take 4).length = 4 := by simp [eight]
  have whole : (bytes.drop 4).take 4 = bytes.drop 4 := List.take_of_length_le (by simp [eight])
  rw [cipherBlock, first, second, undoes, word, word, bytesLE_ofNat front, bytesLE_ofNat behind, List.drop_zero, whole,
    List.take_append_drop]

theorem cipherWords_eq (cipher : Word × Word → Word × Word) (blocks : Nat) (bytes : List Byte) :
    cipherWords cipher blocks bytes = onBlocks 8 (cipherBlock cipher) blocks bytes := by
  induction blocks generalizing bytes with
  | zero => rfl
  | succ blocks ih =>
    have first : word (bytes.take 8) 0 = word bytes 0 := by
      rw [word, word, List.drop_zero, List.drop_zero, List.take_take]
      rfl
    have second : word (bytes.take 8) 4 = word bytes 4 := by
      rw [word, word, List.drop_take, List.take_take]
      rfl
    rw [cipherWords, ih, onBlocks, cipherBlock, first, second]
    rfl

section
variable {cipher undo : Word × Word → Word × Word} {bytes : List Byte}

theorem cipherWords_length (blocks : Nat) (long : 8 * blocks ≤ bytes.length) :
    (cipherWords cipher blocks bytes).length = bytes.length := by
  rw [cipherWords_eq]
  exact length_onBlocks (fun block _ => cipherBlock_length cipher block) blocks long

theorem cipherWords_append (blocks more : Nat) {rest : List Byte} (whole : bytes.length = 8 * blocks) :
    cipherWords cipher (blocks + more) (bytes ++ rest) =
      cipherWords cipher blocks bytes ++ cipherWords cipher more rest := by
  rw [cipherWords_eq, cipherWords_eq, cipherWords_eq]
  exact onBlocks_append blocks more whole

theorem cipherWords_cipherWords (undoes : ∀ v, undo (cipher v) = v) (blocks : Nat) (long : 8 * blocks ≤ bytes.length) :
    cipherWords undo blocks (cipherWords cipher blocks bytes) = bytes := by
  rw [cipherWords_eq, cipherWords_eq]
  exact onBlocks_onBlocks (fun block _ => cipherBlock_length cipher block)
    (fun _ eight => cipherBlock_cipherBlock undoes eight) blocks long

end

/-- What is enciphered is read with the same key. -/
theorem decry_encryWords (key : Key) (blocks : Nat) {bytes : List Byte} (long : 8 * blocks ≤ bytes.length) :
    cipherWords (decry key) blocks (cipherWords (encry key) blocks bytes) = bytes :=
  cipherWords_cipherWords (decry_encry key) blocks long

/-! Arrays of words. -/

/-- A cipher applied to the first two words. -/
def cipherPair (cipher : Word × Word → Word × Word) : List Word → List Word
  | v0 :: v1 :: rest => (cipher (v0, v1)).1 :: (cipher (v0, v1)).2 :: rest
  | rest => rest

/-- Enciphers or deciphers an array of words in place; there is no result where the number of
words is odd, which fails an assertion. -/
def cipherArray (cipher : Key → Word × Word → Word × Word) (now : Int) (v : List Word) : Option (List Word) :=
  if v.length % 2 = 0 then
    some (onBlocks 2 (cipherPair (cipher (generateKey now))) (v.length / 2) v)
  else
    none

/-- What `encry2` makes of an array. -/
def encryArray (now : Int) (v : List Word) : Option (List Word) := cipherArray encry now v

/-- What `decry2` makes of an array. -/
def decryArray (now : Int) (v : List Word) : Option (List Word) := cipherArray decry now v

/-- The minutes that the key is made of, rounded up. -/
def keyPeriod (now : Int) : Word := (BitVec.ofInt 32 now + 59) / 60

theorem generateKey_congr {now now' : Int} (same : keyPeriod now = keyPeriod now') :
    generateKey now = generateKey now' := by
  unfold keyPeriod at same
  exact congrArg (fun period => Key.mk 0x53726438 0x89742910 0x47492018 (Tunnel.hash period)) same

theorem cipherPair_length (cipher : Word × Word → Word × Word) (v : List Word) :
    (cipherPair cipher v).length = v.length := by
  cases v with
  | nil => rfl
  | cons v0 rest => cases rest <;> rfl

theorem cipherPair_cipherPair {cipher undo : Word × Word → Word × Word} (undoes : ∀ v, undo (cipher v) = v)
    (v : List Word) : cipherPair undo (cipherPair cipher v) = v := by
  cases v with
  | nil => rfl
  | cons v0 rest =>
    cases rest with
    | nil => rfl
    | cons v1 rest =>
      rw [cipherPair, cipherPair, undoes]

section
variable {cipher undo : Key → Word × Word → Word × Word} {now now' : Int} {v more : List Word}

theorem cipherArray_of_even (even : v.length % 2 = 0) :
    cipherArray cipher now v =
      some (onBlocks 2 (cipherPair (cipher (generateKey now))) (v.length / 2) v) := if_pos even

/-- With the key of the same minute, one cipher takes back what the other did. -/
theorem cipherArray_cipherArray (undoes : ∀ k v, undo k (cipher k v) = v) (even : v.length % 2 = 0)
    (same : keyPeriod now = keyPeriod now') :
    (cipherArray cipher now v).bind (cipherArray undo now') = some v := by
  have keeps : ∀ block : List Word, block.length = 2 →
      (cipherPair (cipher (generateKey now)) block).length = 2 := by
    intro block two
    rw [cipherPair_length, two]
  have long : 2 * (v.length / 2) ≤ v.length := by omega
  have size := length_onBlocks keeps (v.length / 2) long
  have even' : (onBlocks 2 (cipherPair (cipher (generateKey now))) (v.length / 2) v).length % 2 = 0 := by
    rw [size, even]
  rw [cipherArray_of_even even, Option.bind_some, cipherArray_of_even even', size, ← generateKey_congr same]
  apply congrArg some
  exact onBlocks_onBlocks keeps (fun block _ => cipherPair_cipherPair (undoes _) block) (v.length / 2) long

/-- Two pieces of an array, at times when the key is the same, are what the array is at once. -/
theorem cipherArray_append {now'' : Int} (even : v.length % 2 = 0) (even' : more.length % 2 = 0)
    (same : keyPeriod now = keyPeriod now') (whole : keyPeriod now'' = keyPeriod now) :
    cipherArray cipher now'' (v ++ more) =
      (cipherArray cipher now v).bind fun first =>
        (cipherArray cipher now' more).map fun second => first ++ second := by
  have evenAll : (v ++ more).length % 2 = 0 := by
    rw [List.length_append]
    omega
  have count : (v ++ more).length / 2 = v.length / 2 + more.length / 2 := by
    rw [List.length_append]
    omega
  have split : v.length = 2 * (v.length / 2) := by omega
  rw [cipherArray_of_even even, cipherArray_of_even even', cipherArray_of_even evenAll, count,
    generateKey_congr whole, ← generateKey_congr same]
  apply congrArg some
  exact onBlocks_append (v.length / 2) (more.length / 2) split

end

/-- Enciphering and deciphering take each other back while the key stays the same, and an
array can be transformed in two pieces of even length as well as at once. -/
theorem array_restored (v more : List Word) (even : v.length % 2 = 0) (even' : more.length % 2 = 0)
    (now now' now'' : Int) (same : keyPeriod now = keyPeriod now') (whole : keyPeriod now'' = keyPeriod now) :
    ((encryArray now v).bind (decryArray now') = some v ∧ (decryArray now v).bind (encryArray now') = some v) ∧
    (encryArray now'' (v ++ more) =
      (encryArray now v).bind fun first => (encryArray now' more).map fun second => first ++ second) ∧
    decryArray now'' (v ++ more) =
      (decryArray now v).bind fun first => (decryArray now' more).map fun second => first ++ second := by
  constructor
  · constructor
    · exact cipherArray_cipherArray decry_encry even same
    · exact cipherArray_cipherArray encry_decry even same
  · constructor
    · exact cipherArray_append even even' same whole
    · exact cipherArray_append even even' same whole

/-- A header of four words that is read in one minute, and two words that are read later in it. -/
theorem array_restored_later :
    ((encryArray 61 [1, 2, 3, 4]).bind (decryArray 120) = some [1, 2, 3, 4] ∧
      (decryArray 61 [1, 2, 3, 4]).bind (encryArray 120) = some [1, 2, 3, 4]) ∧
    (encryArray 99 ([1, 2, 3, 4] ++ [5, 6]) =
      (encryArray 61 [1, 2, 3, 4]).bind fun first => (encryArray 120 [5, 6]).map fun second => first ++ second) ∧
    decryArray 99 ([1, 2, 3, 4] ++ [5, 6]) =
      (decryArray 61 [1, 2, 3, 4]).bind fun first => (decryArray 120 [5, 6]).map fun second => first ++ second :=
  array_restored [1, 2, 3, 4] [5, 6] rfl rfl 61 120 99 (by decide) (by decide)

/-- The words of an array as they lie in memory. -/
def arrayBytes (v : List Word) : List Byte := v.flatMap fun x => bytesLE 4 x.toNat

/-- The cipher of the bytes in a buffer is that of the array that lies there. -/
theorem cipherWords_arrayBytes (cipher : Word × Word → Word × Word) (count : Nat) {v : List Word}
    (size : v.length = 2 * count) :
    cipherWords cipher count (arrayBytes v) = arrayBytes (onBlocks 2 (cipherPair cipher) count v) := by
  induction count generalizing v with
  | zero =>
    have none : v = [] := List.eq_nil_of_length_eq_zero size
    rw [none]
    rfl
  | succ count ih =>
    obtain ⟨v0, v1, rest, rfl⟩ : ∃ v0 v1 rest, v = v0 :: v1 :: rest := by
      cases v with
      | nil => simp at size
      | cons v0 tail =>
        cases tail with
        | nil =>
          simp only [List.length_singleton] at size
          omega
        | cons v1 rest => exact ⟨v0, v1, rest, rfl⟩
    have behind : rest.length = 2 * count := by
      simp only [List.length_cons] at size
      omega
    have bytes : arrayBytes (v0 :: v1 :: rest) = (bytesLE 4 v0.toNat ++ bytesLE 4 v1.toNat) ++ arrayBytes rest := by
      rw [arrayBytes, List.flatMap_cons, List.flatMap_cons, List.append_assoc]
      rfl
    have eight : (bytesLE 4 v0.toNat ++ bytesLE 4 v1.toNat).length = 8 := by
      rw [List.length_append, bytesLE_length, bytesLE_length]
    have first : word (bytesLE 4 v0.toNat ++ bytesLE 4 v1.toNat) 0 = v0 := by
      rw [word, List.drop_zero, List.take_left' (bytesLE_length 4 _), ofNat_natLE_bytesLE]
    have second : word (bytesLE 4 v0.toNat ++ bytesLE 4 v1.toNat) 4 = v1 := by
      rw [word, List.drop_left' (bytesLE_length 4 _), List.take_of_length_le (bytesLE_length 4 _).le,
        ofNat_natLE_bytesLE]
    have rests : cipherWords cipher count (arrayBytes rest) = arrayBytes (onBlocks 2 (cipherPair cipher) count rest) :=
      ih behind
    rw [cipherWords_eq] at rests
    rw [cipherWords_eq, bytes, onBlocks, List.take_left' eight, List.drop_left' eight, rests, cipherBlock, first, second,
      onBlocks]
    change _ = arrayBytes ((cipher (v0, v1)).1 :: (cipher (v0, v1)).2 :: onBlocks 2 (cipherPair cipher) count rest)
    rw [arrayBytes, arrayBytes, List.flatMap_cons, List.flatMap_cons, List.append_assoc]

/-! Buffers. -/

section
variable {cipher : Key → Word × Word → Word × Word} {b : BufId} {post : Unit → DevState → Prop} {err : Fault → Prop}
  {w : DevState}

/-- Blocks that lie inside a buffer are transformed in place. -/
theorem wp_cipherBuf_inside (offset blocks : Nat) (inside : offset + 8 * blocks ≤ bufRoom) :
    Wp (cipherBuf cipher b offset ((2 * blocks : Nat) : Int)) post err w ↔
      post () { w with data := w.data.setBuf b (BufInfo.mk
        ((w.data.bufs b).buf.write offset (cipherWords (cipher (generateKey w.data.now)) blocks
          ((w.data.bufs b).buf.slice offset (8 * blocks))))
        (w.data.bufs b).start (w.data.bufs b).len (w.data.bufs b).totalLen) } := by
  have even : ((2 * blocks : Nat) : Int) % 2 = 0 := by omega
  rw [cipherBuf, wp_bind, wp_assert, iff_of_eq (propext (and_iff_left fun odd => absurd even odd)),
    iff_of_eq (propext (forall_prop_of_true even)), wp_bind, wp_data, wp_when]
  cases blocks with
  | zero =>
    have same : w.data.setBuf b (BufInfo.mk ((w.data.bufs b).buf.write offset []) (w.data.bufs b).start (w.data.bufs b).len
        (w.data.bufs b).totalLen) = w.data := by
      rw [Mem.write_nil]
      exact congrArg (fun bufs => { w.data with bufs }) (update_eq_self b w.data.bufs)
    have slice : (w.data.bufs b).buf.slice offset (8 * 0) = [] := rfl
    rw [slice, cipherWords, same]
    simp
  | succ blocks =>
    have positive : (0 : Int) < ((2 * (blocks + 1) : Nat) : Int) := by omega
    have half : (((2 * (blocks + 1) : Nat) : Int) / 2).toNat = blocks + 1 := by omega
    have bytes : (4 * ((2 * (blocks + 1) : Nat) : Int)).toNat = 8 * (blocks + 1) := by omega
    have room : 0 ≤ (offset : Int) ∧ 0 ≤ 4 * ((2 * (blocks + 1) : Nat) : Int) ∧
        (offset : Int) + 4 * ((2 * (blocks + 1) : Nat) : Int) ≤ bufRoom := by omega
    have length : (cipherWords (cipher (generateKey w.data.now)) (blocks + 1)
        ((w.data.bufs b).buf.slice offset (8 * (blocks + 1)))).length = 8 * (blocks + 1) := by
      rw [cipherWords_length (blocks + 1) (Mem.slice_length _ _ _).ge, Mem.slice_length]
    have room' : 0 ≤ (offset : Int) ∧ (offset : Int) + (8 * (blocks + 1) : Nat) ≤ bufRoom := by omega
    simp only [positive, not_true_eq_false, forall_true_left, false_implies, and_true, wp_bind, wp_bytesAt, room, half,
      bytes, Int.toNat_natCast, wp_memcpy, length, room', and_self]

/-- An array that lies in a buffer is transformed there. -/
theorem wp_cipherBuf_array {v v' : List Word} (offset : Nat) (inside : offset + 4 * v.length ≤ bufRoom)
    (lies : (w.data.bufs b).buf.slice offset (4 * v.length) = arrayBytes v)
    (result : cipherArray cipher w.data.now v = some v') :
    Wp (cipherBuf cipher b offset v.length) post err w ↔
      post () { w with data := w.data.setBuf b (BufInfo.mk ((w.data.bufs b).buf.write offset (arrayBytes v'))
        (w.data.bufs b).start (w.data.bufs b).len (w.data.bufs b).totalLen) } := by
  unfold cipherArray at result
  obtain ⟨even, done⟩ := Option.ite_none_right_eq_some.mp result
  have size : v.length = 2 * (v.length / 2) := by omega
  have bytes : 8 * (v.length / 2) = 4 * v.length := by omega
  have words : cipherWords (cipher (generateKey w.data.now)) (v.length / 2) (arrayBytes v) = arrayBytes v' := by
    rw [cipherWords_arrayBytes _ _ size]
    exact congrArg arrayBytes (Option.some.inj done)
  have same : Wp (cipherBuf cipher b offset ((2 * (v.length / 2) : Nat) : Int)) post err w ↔ _ :=
    wp_cipherBuf_inside offset (v.length / 2) (by omega)
  rwa [← size, bytes, lies, words] at same

theorem wp_cipherBuf_of_eq {offset words : Int} {start blocks : Nat} (begins : offset = start) (all : words = (2 * blocks : Nat))
    (inside : start + 8 * blocks ≤ bufRoom) :
    Wp (cipherBuf cipher b offset words) post err w ↔
      post () { w with data := w.data.setBuf b (BufInfo.mk
        ((w.data.bufs b).buf.write start (cipherWords (cipher (generateKey w.data.now)) blocks
          ((w.data.bufs b).buf.slice start (8 * blocks))))
        (w.data.bufs b).start (w.data.bufs b).len (w.data.bufs b).totalLen) } := by
  rw [begins, all]
  exact wp_cipherBuf_inside start blocks inside

/-- Nothing is transformed where there are no words. -/
theorem wp_cipherBuf_none {offset words : Int} (even : words % 2 = 0) (none : words ≤ 0) (next : post () w) :
    Wp (cipherBuf cipher b offset words) post err w := by
  rw [cipherBuf, wp_bind, wp_assert]
  refine ⟨fun _ => ?_, fun odd => absurd even odd⟩
  rw [wp_bind, wp_data, wp_when]
  exact ⟨fun positive => absurd positive (by omega), fun _ => next⟩

end

end WebTunnel.Device.Ciphering
