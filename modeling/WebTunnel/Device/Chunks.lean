import WebTunnel.Device.Parsing

/-! Chunked bodies as bytes: what a valid one is, and what the decoder makes of any bytes, one
after the other, wherever the buffers they lie in end. -/

namespace WebTunnel.Device.Chunks
open Library.Bytes Device.Types Parsing

def cr : Byte := 0x0d
def lf : Byte := 0x0a

/-- What is read next: the characters of a size line, the line feed behind it, or the data of a
chunk of which some bytes are left. -/
inductive Reader where
  | line (chars : List Byte)
  | linefeed (chars : List Byte)
  | data (left : Nat)

/-- How the reading ends: with the last chunk, with an error, or astray, where a line that is
not empty has no size, a size is negative or the bytes end with a chunk. -/
inductive Verdict where
  | finished
  | refused
  | stray
deriving DecidableEq

def lineByte (chars : List Byte) (b : Byte) : Reader ⊕ Verdict :=
  if b = cr then .inl (.linefeed chars)
  else if chars.length + 1 = httpChunkMax then .inr .refused
  else .inl (.line (chars ++ [b]))

def sized : Option Int → Reader ⊕ Verdict
  | none => .inr .stray
  | some size => if size = 0 then .inr .finished else if size < 0 then .inr .stray else .inl (.data size.toNat)

def afterLine (chars : List Byte) : Reader ⊕ Verdict :=
  if cString chars = [] then .inl (.line []) else sized (sscanfHex chars)

/-- The bytes that are put out for one byte, and how the reading goes on. -/
def feed : Reader → Byte → List Byte × (Reader ⊕ Verdict)
  | .line chars, b => ([], lineByte chars b)
  | .linefeed chars, b => ([], if b = lf then afterLine chars else .inr .refused)
  | .data 0, b => ([], lineByte [] b)
  | .data (left + 1), b => ([b], .inl (.data left))

def Reader.ended : Reader → Verdict
  | .data _ => .stray
  | _ => .refused

def decodeBytes : Reader → List Byte → List Byte × Verdict
  | r, [] => ([], r.ended)
  | r, b :: rest =>
    match feed r b with
    | (out, .inl r) => (out ++ (decodeBytes r rest).1, (decodeBytes r rest).2)
    | (out, .inr verdict) => (out, verdict)

section
variable {chars bytes rest : List Byte} {b : Byte}

theorem decode_cr : decodeBytes (.line chars) (cr :: rest) = decodeBytes (.linefeed chars) rest := rfl

theorem decode_line_byte (other : b ≠ cr) (short : chars.length + 1 < httpChunkMax) :
    decodeBytes (.line chars) (b :: rest) = decodeBytes (.line (chars ++ [b])) rest := by
  rw [decodeBytes, feed, lineByte, if_neg other, if_neg short.ne]
  rfl

/-- The characters of a size line. -/
theorem decode_line (other : cr ∉ bytes) (short : chars.length + bytes.length < httpChunkMax) :
    decodeBytes (.line chars) (bytes ++ rest) = decodeBytes (.line (chars ++ bytes)) rest := by
  induction bytes generalizing chars with
  | nil => rw [List.append_nil, List.nil_append]
  | cons b bytes ih =>
    obtain ⟨first, others⟩ := not_or.mp (List.mem_cons.not.mp other)
    rw [List.length_cons] at short
    rw [List.cons_append, decode_line_byte (Ne.symm first) (by omega), ih others, List.append_assoc,
      List.singleton_append]
    rw [List.length_append, List.length_singleton]
    omega

/-- A line of too many characters. -/
theorem decode_long_line (other : cr ∉ bytes) (short : chars.length < httpChunkMax)
    (long : httpChunkMax ≤ chars.length + bytes.length) :
    decodeBytes (.line chars) (bytes ++ rest) = ([], .refused) := by
  induction bytes generalizing chars with
  | nil => exact absurd long (not_le.mpr short)
  | cons b bytes ih =>
    obtain ⟨first, others⟩ := not_or.mp (List.mem_cons.not.mp other)
    rw [List.length_cons] at long
    by_cases last : chars.length + 1 = httpChunkMax
    · rw [List.cons_append, decodeBytes, feed, lineByte, if_neg (Ne.symm first), if_pos last]
    · rw [List.cons_append, decode_line_byte (Ne.symm first) (by omega)]
      refine ih others ?_ ?_
      all_goals
        rw [List.length_append, List.length_singleton]
        omega

theorem decode_lf : decodeBytes (.linefeed chars) (lf :: rest) =
    match afterLine chars with
    | .inl r => decodeBytes r rest
    | .inr verdict => ([], verdict) := by
  rw [decodeBytes, feed, if_pos rfl]
  cases afterLine chars <;> rfl

theorem decode_no_lf (other : b ≠ lf) : decodeBytes (.linefeed chars) (b :: rest) = ([], .refused) := by
  rw [decodeBytes, feed, if_neg other]

theorem decode_data_byte (left : Nat) : decodeBytes (.data (left + 1)) (b :: rest) =
    (b :: (decodeBytes (.data left) rest).1, (decodeBytes (.data left) rest).2) := rfl

/-- The data of a chunk. -/
theorem decode_data (left : Nat) : decodeBytes (.data (bytes.length + left)) (bytes ++ rest) =
    (bytes ++ (decodeBytes (.data left) rest).1, (decodeBytes (.data left) rest).2) := by
  induction bytes with
  | nil => rw [List.length_nil, Nat.zero_add, List.nil_append, List.nil_append]
  | cons b bytes ih =>
    rw [List.length_cons, Nat.add_right_comm, List.cons_append, decode_data_byte, ih, List.cons_append]

/-- Behind the data of a chunk comes a line, where there is more. -/
theorem decode_data_zero (more : rest ≠ []) : decodeBytes (.data 0) rest = decodeBytes (.line []) rest := by
  cases rest with
  | nil => exact absurd rfl more
  | cons b rest => rfl

end

/-! Valid bodies. -/

section
variable {digits extension line : List Byte} {size : Nat}

end

/-- The characters in front of a carriage return, not too many of them. -/
structure Line (line : List Byte) : Prop where
  whole : cr ∉ line
  short : line.length < httpChunkMax

/-- A line that is not empty has no size or a negative one, or the bytes end with the data of a
chunk or before they do, behind any number of empty lines and chunks. -/
inductive Strays : List Byte → Prop where
  | unsized {line rest : List Byte} : Line line → cString line ≠ [] → sscanfHex line = none → Strays (line ++ [cr, lf] ++ rest)
  | negative {line rest : List Byte} {size : Int} : Line line → sscanfHex line = some size → size < 0 →
      Strays (line ++ [cr, lf] ++ rest)
  | cut {line data : List Byte} {size : Nat} : Line line → sscanfHex line = some (size : Int) → 0 < size →
      data.length ≤ size → Strays (line ++ [cr, lf] ++ data)
  | blank {line rest : List Byte} : Line line → cString line = [] → Strays rest → Strays (line ++ [cr, lf] ++ rest)
  | chunk {line data rest : List Byte} : Line line → sscanfHex line = some (data.length : Int) → data ≠ [] → Strays rest →
      Strays (line ++ [cr, lf] ++ data ++ rest)

section
variable {line data rest body : List Byte}

theorem Strays.ne_nil (strays : Strays body) : body ≠ [] := by
  cases strays <;> simp

theorem sscanfHex_of_empty (empty : cString line = []) : sscanfHex line = none := by
  unfold sscanfHex
  rw [empty]
  rfl

theorem decode_whole_line (valid : Line line) (rest : List Byte) : decodeBytes (.line []) (line ++ [cr, lf] ++ rest) =
    match afterLine line with
    | .inl r => decodeBytes r rest
    | .inr verdict => ([], verdict) := by
  rw [List.append_assoc, decode_line valid.whole (by simpa using valid.short), List.nil_append]
  exact decode_lf

theorem afterLine_of_some {size : Int} (read : sscanfHex line = some size) : afterLine line = sized (some size) := by
  rw [afterLine, if_neg, read]
  intro empty
  cases (sscanfHex_of_empty empty).symm.trans read

/-- Data that end the bytes, or before which the bytes end. -/
theorem decode_cut {size : Nat} (short : data.length ≤ size) : decodeBytes (.data size) data = (data, .stray) := by
  have whole : decodeBytes (.data (data.length + (size - data.length))) (data ++ []) = _ := decode_data (size - data.length)
  rw [Nat.add_sub_cancel' short, List.append_nil] at whole
  rw [whole]
  exact congrArg (·, Verdict.stray) (List.append_nil data)

theorem decode_whole_data (more : rest ≠ []) : (decodeBytes (.data data.length) (data ++ rest)).2 = (decodeBytes (.line []) rest).2 := by
  have whole : decodeBytes (.data data.length) (data ++ rest) = _ := decode_data 0
  rw [whole, decode_data_zero more]

theorem stray_of_strays (strays : Strays body) : (decodeBytes (.line []) body).2 = .stray := by
  induction strays with
  | unsized valid filled none =>
    rw [decode_whole_line valid, afterLine, if_neg filled, none]
    rfl
  | negative valid read negative =>
    rw [decode_whole_line valid, afterLine_of_some read, sized, if_neg negative.ne, if_pos negative]
  | cut valid read positive short =>
    rw [decode_whole_line valid, afterLine_of_some read, sized, if_neg (by omega), if_neg (by omega)]
    dsimp only
    rw [Int.toNat_natCast, decode_cut short]
  | blank valid empty _ ih =>
    rw [decode_whole_line valid, afterLine, if_pos empty]
    exact ih
  | chunk valid read filled strays ih =>
    have positive := List.length_pos_iff.mpr filled
    rw [List.append_assoc, decode_whole_line valid, afterLine_of_some read, sized, if_neg (by omega), if_neg (by omega)]
    dsimp only
    rw [Int.toNat_natCast, decode_whole_data strays.ne_nil]
    exact ih

theorem not_stray_of_no_cr (none : cr ∉ body) : (decodeBytes (.line []) body).2 ≠ .stray := by
  by_cases short : body.length < httpChunkMax
  · have read : decodeBytes (.line []) (body ++ []) = _ := decode_line none (by simpa using short)
    rw [List.append_nil] at read
    rw [read]
    rintro ⟨⟩
  · have read : decodeBytes (.line []) (body ++ []) = _ := decode_long_line none (by decide) (by simpa using short)
    rw [List.append_nil] at read
    rw [read]
    rintro ⟨⟩

theorem strays_of_stray (stray : (decodeBytes (.line []) body).2 = .stray) : Strays body := by
  induction length : body.length using Nat.strong_induction_on generalizing body with
  | _ size ih =>
    subst length
    by_cases found : cr ∈ body
    · obtain ⟨line, behind, rfl, whole⟩ := List.eq_append_cons_of_mem found
      by_cases short : line.length < httpChunkMax
      · have valid : Line line := ⟨whole, short⟩
        have before : decodeBytes (.line []) (line ++ cr :: behind) = _ := decode_line whole (by simpa using short)
        rw [before, List.nil_append, decode_cr] at stray
        obtain ⟨rest, rfl⟩ : ∃ rest, behind = lf :: rest := by
          cases behind with
          | nil => cases stray
          | cons b rest =>
            by_cases feed : b = lf
            · exact ⟨rest, by rw [feed]⟩
            · rw [decode_no_lf feed] at stray
              cases stray
        have less : rest.length < (line ++ cr :: lf :: rest).length := by
          simp only [List.length_append, List.length_cons]
          omega
        rw [decode_lf] at stray
        have text : line ++ cr :: lf :: rest = line ++ [cr, lf] ++ rest := by simp
        rw [text]
        by_cases empty : cString line = []
        · rw [afterLine, if_pos empty] at stray
          exact .blank valid empty (ih _ less stray rfl)
        · cases read : sscanfHex line with
          | none => exact .unsized valid empty read
          | some n =>
            by_cases negative : n < 0
            · exact .negative valid read negative
            · obtain ⟨size, rfl⟩ := Int.eq_ofNat_of_zero_le (not_lt.mp negative)
              rw [afterLine_of_some read, sized, if_neg negative] at stray
              by_cases zero : size = 0
              · rw [if_pos (by exact_mod_cast zero)] at stray
                cases stray
              · have positive : 0 < size := Nat.pos_of_ne_zero zero
                rw [if_neg (by omega)] at stray
                dsimp only at stray
                rw [Int.toNat_natCast] at stray
                by_cases short : rest.length ≤ size
                · exact .cut valid read positive short
                · have taken : (rest.take size).length = size := List.length_take_of_le (by omega)
                  have more : rest.drop size ≠ [] := fun none => short (List.drop_eq_nil_iff.mp none)
                  have parts : rest = rest.take size ++ rest.drop size := (List.take_append_drop size rest).symm
                  have after : (decodeBytes (.data (rest.take size).length) (rest.take size ++ rest.drop size)).2 = _ :=
                    decode_whole_data more
                  rw [taken, ← parts, stray] at after
                  rw [parts, ← List.append_assoc]
                  refine .chunk valid (by rw [taken]; exact read) (fun none => ?_) (ih _ ?_ after.symm rfl)
                  · rw [none] at taken
                    exact zero taken.symm
                  · rw [List.length_drop]
                    omega
      · have refused : decodeBytes (.line []) (line ++ cr :: behind) = _ :=
          decode_long_line whole (by decide) (by simpa using short)
        rw [refused] at stray
        cases stray
    · exact absurd stray (not_stray_of_no_cr found)

/-- Where the reading goes astray. -/
theorem strays_iff : (decodeBytes (.line []) body).2 = .stray ↔ Strays body := ⟨strays_of_stray, stray_of_strays⟩

end
end WebTunnel.Device.Chunks
