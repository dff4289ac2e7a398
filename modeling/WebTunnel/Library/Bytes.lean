import Mathlib.Tactic.Ring
import Mathlib.Tactic.Linarith
import Mathlib.Data.List.Basic
import Mathlib.Data.List.GetD

/-! Bytes, fixed-width integers in both byte orders, and byte-addressed memory. -/

namespace WebTunnel.Library.Bytes

abbrev Byte := BitVec 8

instance : LawfulBEq Byte := inferInstance

/-- The number a byte string denotes, most significant byte first. -/
def natBE : List Byte → Nat
  | [] => 0
  | b :: rest => b.toNat * 256 ^ rest.length + natBE rest

/-- The `k` low bytes of a number, most significant byte first. -/
def bytesBE : Nat → Nat → List Byte
  | 0, _ => []
  | k + 1, n => BitVec.ofNat 8 (n / 256 ^ k) :: bytesBE k n

def natLE (l : List Byte) : Nat := natBE l.reverse
def bytesLE (k n : Nat) : List Byte := (bytesBE k n).reverse

@[simp] theorem bytesBE_length (k n : Nat) : (bytesBE k n).length = k := by
  induction k with
  | zero => rfl
  | succ k ih => rw [bytesBE, List.length_cons, ih]

@[simp] theorem bytesLE_length (k n : Nat) : (bytesLE k n).length = k := by
  rw [bytesLE, List.length_reverse, bytesBE_length]

theorem natBE_lt (l : List Byte) : natBE l < 256 ^ l.length := by
  induction l with
  | nil => decide
  | cons b rest ih =>
    have small : b.toNat < 256 := b.isLt
    rw [natBE, List.length_cons, pow_succ]
    nlinarith

theorem natBE_bytesBE (k n : Nat) : natBE (bytesBE k n) = n % 256 ^ k := by
  induction k with
  | zero => rw [bytesBE, natBE, pow_zero, Nat.mod_one]
  | succ k ih =>
    have digits : n % 256 ^ (k + 1) = n % 256 ^ k + 256 ^ k * (n / 256 ^ k % 256) := Nat.mod_pow_succ
    rw [bytesBE, natBE, ih, bytesBE_length, BitVec.toNat_ofNat, digits]
    exact (Nat.add_comm _ _).trans (congrArg _ (Nat.mul_comm _ _))

theorem natBE_bytesBE_of_lt {k n : Nat} (small : n < 256 ^ k) : natBE (bytesBE k n) = n := by
  rw [natBE_bytesBE, Nat.mod_eq_of_lt small]

theorem bytesBE_add_mul (k n m : Nat) : bytesBE k (n + m * 256 ^ k) = bytesBE k n := by
  induction k generalizing m with
  | zero => rfl
  | succ k ih =>
    have split : m * 256 ^ (k + 1) = (m * 256) * 256 ^ k := by ring
    have positive : 0 < 256 ^ k := pow_pos (by decide) k
    rw [bytesBE, bytesBE, split, ih, Nat.add_mul_div_right _ _ positive]
    congr 1
    apply BitVec.eq_of_toNat_eq
    rw [BitVec.toNat_ofNat, BitVec.toNat_ofNat, Nat.add_mul_mod_self_right]

theorem bytesBE_natBE (l : List Byte) : bytesBE l.length (natBE l) = l := by
  induction l with
  | nil => rfl
  | cons b rest ih =>
    have small := natBE_lt rest
    have top : (b.toNat * 256 ^ rest.length + natBE rest) / 256 ^ rest.length = b.toNat := by
      rw [Nat.add_comm, Nat.add_mul_div_right _ _ (pow_pos (by decide) _),
        Nat.div_eq_of_lt small, Nat.zero_add]
    rw [natBE, List.length_cons, bytesBE, top, BitVec.ofNat_toNat, BitVec.setWidth_eq,
      Nat.add_comm (b.toNat * _), bytesBE_add_mul, ih]

theorem natLE_bytesLE (k n : Nat) : natLE (bytesLE k n) = n % 256 ^ k := by
  rw [natLE, bytesLE, List.reverse_reverse, natBE_bytesBE]

/-- The number whose little-endian bytes are the big-endian bytes of `n`. -/
def swapBytes (k n : Nat) : Nat := natBE (bytesLE k n)

def htonl (n : Nat) : Nat := swapBytes 4 n
def htons (n : Nat) : Nat := swapBytes 2 n

/-- Storing a byte-swapped number of the same width on a little-endian host writes network order. -/
theorem bytesLE_swapBytes (k n : Nat) : bytesLE k (swapBytes k n) = bytesBE k n := by
  have whole := bytesBE_natBE (bytesLE k n)
  rw [bytesLE_length] at whole
  rw [bytesLE, swapBytes, whole, bytesLE, List.reverse_reverse]

theorem bytesLE_htonl (n : Nat) : bytesLE 4 (htonl n) = bytesBE 4 n := bytesLE_swapBytes 4 n
theorem bytesLE_htons (n : Nat) : bytesLE 2 (htons n) = bytesBE 2 n := bytesLE_swapBytes 2 n

/-- Reading network order from little-endian memory and swapping gives the number back. -/
theorem swapBytes_natLE {k : Nat} {l : List Byte} (width : l.length = k) :
    swapBytes k (natLE l) = natBE l := by
  have whole := bytesBE_natBE l.reverse
  rw [List.length_reverse, width] at whole
  rw [swapBytes, bytesLE, natLE, whole, List.reverse_reverse]

/-! Byte-addressed memory. -/

abbrev Mem := Nat → Byte

def Mem.slice (m : Mem) (start size : Nat) : List Byte :=
  (List.range size).map (fun i => m (start + i))

def Mem.write (m : Mem) (start : Nat) (data : List Byte) : Mem :=
  fun i => if start ≤ i then data.getD (i - start) (m i) else m i

@[simp] theorem Mem.write_nil (m : Mem) (start : Nat) : m.write start [] = m := by
  funext i
  simp [Mem.write]

@[simp] theorem Mem.slice_length (m : Mem) (start size : Nat) : (m.slice start size).length = size := by
  simp [Mem.slice]

theorem Mem.slice_add (m : Mem) (start size more : Nat) :
    m.slice start (size + more) = m.slice start size ++ m.slice (start + size) more := by
  simp only [Mem.slice, List.range_add, List.map_append, List.map_map, List.append_cancel_left_eq]
  apply List.map_congr_left
  intro i _
  simp [Nat.add_assoc]

theorem Mem.slice_congr {m m' : Mem} {start size : Nat}
    (same : ∀ i, start ≤ i → i < start + size → m i = m' i) : m.slice start size = m'.slice start size := by
  apply List.map_congr_left
  intro i member
  have low := List.mem_range.mp member
  exact same _ (Nat.le_add_right _ _) (by omega)

/-- What was just written is read back. -/
theorem Mem.slice_write (m : Mem) (start : Nat) (data : List Byte) :
    (m.write start data).slice start data.length = data := by
  apply List.ext_getElem
  · rw [Mem.slice_length]
  · intro i _ inside
    simp [Mem.slice, Mem.write, inside]

/-- Memory outside the written range keeps its contents. -/
theorem Mem.slice_write_of_disjoint (m : Mem) {start : Nat} {data : List Byte} {at_ size : Nat}
    (apart : at_ + size ≤ start ∨ start + data.length ≤ at_) :
    (m.write start data).slice at_ size = m.slice at_ size := by
  apply Mem.slice_congr
  intro i low high
  unfold Mem.write
  split
  · rw [List.getD_eq_default _ _ (by omega)]
  · rfl

/-- Where bytes are cut behind their first part, the cut is in the second part. -/
theorem cut_behind {first rest before after : List Byte} (cut : first ++ rest = before ++ after)
    (whole : before.length ≤ first.length) :
    first = before ++ first.drop before.length ∧ after = first.drop before.length ++ rest := by
  have start : first.take before.length = before := by
    have taken := congrArg (List.take before.length) cut
    rwa [List.take_append_of_le_length whole, List.take_left] at taken
  have ends := congrArg (List.drop before.length) cut
  rw [List.drop_append_of_le_length whole, List.drop_left] at ends
  refine ⟨?_, ends.symm⟩
  conv_lhs => rw [← List.take_append_drop before.length first, start]

end WebTunnel.Library.Bytes
