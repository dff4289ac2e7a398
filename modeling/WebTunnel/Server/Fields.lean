import WebTunnel.Server.Splitting

/-! Which fields of a device's response the server forwards. -/

namespace WebTunnel.Server.Fields
open Library.Bytes Library.JavaScript Library.Occurrences Sessions Server.Types Processors Splitting

/-- The code in a status line, between the version and the reason. -/
def statusCode (line : Text) : Option Nat :=
  match (line.dropWhile (· ≠ ' ')).drop 1 with
  | a :: b :: c :: reason =>
    if (a.isDigit ∧ b.isDigit ∧ c.isDigit) ∧ (reason = [] ∨ reason.head? = some ' ') then
      some (digit a * 100 + digit b * 10 + digit c)
    else none
  | _ => none

def connection : Text := "connection".toList
def proto : Text := "__proto__".toList

/-- The name in the line of a field, in small letters, and everything behind the colon. -/
def fieldLine (line : Text) : Option (Text × Text) :=
  if ':' ∈ line then
    some (toLowerCase (trim (line.takeWhile (· ≠ ':'))), (line.dropWhile (· ≠ ':')).drop 1)
  else none

/-- The fields of a block that are to be forwarded. -/
def fieldLines (block : List Byte) : List (Text × Text) :=
  ((blockLines block).tail.filterMap fieldLine).filter fun f => f.1 ≠ connection

/-- The values under a name, in order. -/
def valuesOf (fields : List (Text × Text)) (name : Text) : List Text :=
  (fields.filter fun f => f.1 = name).map Prod.snd

/-- Under the name of each field of the block stand all its values, trimmed. -/
def Carries (block : List Byte) (fields : List (Text × Text)) : Prop :=
  ∀ name ∈ (fieldLines block).map Prod.fst, valuesOf fields name = (valuesOf (fieldLines block) name).map trim

/-- The call passes on the status and the fields of the block. -/
def Forwards (block : List Byte) (code : Nat) (id : ProcId) (p : HttpProcessor) (buffer : List Byte) : Prop :=
  ∃ fields body, (HttpProcessor.processHeader p id buffer).2 = .writeHead id code fields :: body ∧ Carries block fields

/-- Each name has one value, without capital letters and without a colon. -/
structure Plain (block : List Byte) (code : Nat) : Prop where
  version : threeDigits ((statusLine block).takeWhile (· ≠ ' ')) = none ∨
    threeDigits ((statusLine block).takeWhile (· ≠ ' ')) = some code
  distinct : ((fieldLines block).map Prod.fst).Nodup
  ordinary : proto ∉ (fieldLines block).map Prod.fst
  small : ∀ f ∈ fieldLines block, ':' ∉ f.2 ∧ ∀ c ∈ f.2, ¬ c.isUpper

/-! The status. -/

section
variable {line rest before : Text} {code : Nat}

theorem threeDigits_append (before : Text) (rest : Text) :
    threeDigits (before ++ ' ' :: rest) = (threeDigits before).or (threeDigits rest) := by
  have blank : (' ' : Char).isDigit = false := by decide
  induction before with
  | nil => cases rest with
    | nil => rfl
    | cons a rest => cases rest with
      | nil => rfl
      | cons b rest => simp [threeDigits, blank]
  | cons a before ih =>
    cases before with
    | nil =>
      rw [List.nil_append] at ih
      cases rest with
      | nil => rfl
      | cons b rest => simpa [threeDigits, blank] using ih
    | cons b before =>
      cases before with
      | nil => simpa [threeDigits, blank] using ih
      | cons c before =>
        rw [List.cons_append, List.cons_append, List.cons_append, threeDigits, threeDigits]
        split
        · rfl
        · exact ih

/-- The digits that the server takes are those of the code unless there are some in the version. -/
theorem threeDigits_of_statusCode (status : statusCode line = some code) :
    threeDigits line = (threeDigits (line.takeWhile (· ≠ ' '))).or (some code) := by
  rw [statusCode] at status
  split at status
  next a b c reason behind =>
    split at status
    next digits =>
      have blank : line.dropWhile (· ≠ ' ') ≠ [] := by
        intro none
        rw [none] at behind
        cases behind
      have first := List.head_dropWhile_not (· ≠ ' ') blank
      have whole : line = line.takeWhile (· ≠ ' ') ++ ' ' :: a :: b :: c :: reason := by
        rw [← behind]
        conv_lhs => rw [← List.takeWhile_append_dropWhile (p := (· ≠ ' ')) (l := line)]
        rw [List.append_cancel_left_eq]
        obtain ⟨d, later, same⟩ := List.exists_cons_of_ne_nil blank
        simp only [same, List.head_cons] at first
        rw [same, List.drop_one, List.tail_cons]
        simpa using first
      conv_lhs => rw [whole]
      rw [threeDigits_append, threeDigits, if_pos digits.1, Option.some.inj status]
    next => cases status
  next => cases status

theorem passes_code_iff (status : statusCode line = some code) :
    threeDigits line = some code ↔ threeDigits (line.takeWhile (· ≠ ' ')) = none ∨
      threeDigits (line.takeWhile (· ≠ ' ')) = some code := by
  rw [threeDigits_of_statusCode status]
  cases threeDigits (line.takeWhile (· ≠ ' ')) with
  | none => simp
  | some other => simp

end

/-! The lines of the fields. -/

/-- What the server takes for the value: the text up to the next colon, in small letters. -/
def readValue (value : Text) : Text := toLowerCase (trim (value.takeWhile (· ≠ ':')))

section
variable {line value : Text}

theorem splitFrom_single (c : Char) (piece text : Text) : splitFrom [c] 0 piece text =
    if c ∈ text then (piece.reverse ++ text.takeWhile (· ≠ c)) :: splitFrom [c] 0 [] ((text.dropWhile (· ≠ c)).drop 1)
    else [piece.reverse ++ text] := by
  induction text generalizing piece with
  | nil => simp [splitFrom]
  | cons d rest ih =>
    rw [splitFrom]
    by_cases same : d = c
    · subst same
      have here : [d].isPrefixOf (d :: rest) = true := List.isPrefixOf_iff_prefix.mpr (by simp)
      rw [if_pos here, if_pos (by simp)]
      simp
    · have other : ¬ [c].isPrefixOf (d :: rest) = true := by
        rw [List.isPrefixOf_iff_prefix, List.cons_prefix_cons]
        exact fun here => same here.1.symm
      rw [if_neg other, ih]
      simp [same, Ne.symm same]

theorem addHeaderField_eq (fields : List (Text × Text)) (line : Text) : addHeaderField fields line =
    match fieldLine line with
    | none => fields
    | some (name, value) => if name = connection then fields else setField fields name (readValue value) := by
  rw [addHeaderField, split, String.toList_ofList, splitFrom_single, fieldLine]
  by_cases colon : ':' ∈ line
  · rw [if_pos colon, if_pos colon, splitFrom_single]
    by_cases more : ':' ∈ (line.dropWhile (· ≠ ':')).drop 1
    · rw [if_pos more]
      rfl
    · rw [if_neg more]
      have whole : ((line.dropWhile (· ≠ ':')).drop 1).takeWhile (· ≠ ':') = (line.dropWhile (· ≠ ':')).drop 1 := by
        rw [List.takeWhile_eq_self_iff]
        intro c member
        simp only [decide_eq_true_eq]
        rintro rfl
        exact more member
      simp only [readValue, whole]
      rfl
  · rw [if_neg colon, if_neg colon]

end

/-! The fields that are set. -/

section
variable {fields more : List (Text × Text)} {name key value : Text}

theorem valuesOf_eq_nil_iff : valuesOf fields name = [] ↔ name ∉ fields.map Prod.fst := by
  rw [valuesOf, List.map_eq_nil_iff, List.filter_eq_nil_iff]
  simp only [decide_eq_true_eq, List.mem_map, not_exists, not_and]

theorem valuesOf_cons (f : Text × Text) (fields : List (Text × Text)) (name : Text) :
    valuesOf (f :: fields) name = if f.1 = name then f.2 :: valuesOf fields name else valuesOf fields name := by
  rw [valuesOf, List.filter_cons]
  split <;> simp_all [valuesOf]

theorem valuesOf_append (fields more : List (Text × Text)) (name : Text) :
    valuesOf (fields ++ more) name = valuesOf fields name ++ valuesOf more name := by
  rw [valuesOf, List.filter_append, List.map_append]
  rfl

/-- A name that is known keeps its place, and its value is replaced. -/
theorem valuesOf_replace (distinct : (fields.map Prod.fst).Nodup) (member : key ∈ fields.map Prod.fst) :
    valuesOf (fields.map fun f => if f.1 = key then (key, value) else f) name =
      if name = key then [value] else valuesOf fields name := by
  induction fields with
  | nil => cases member
  | cons f fields ih =>
    obtain ⟨apart, distinct⟩ := List.nodup_cons.mp distinct
    rw [List.map_cons, valuesOf_cons, valuesOf_cons]
    by_cases here : f.1 = key
    · have others : fields.map (fun f => if f.1 = key then (key, value) else f) = fields := by
        rw [List.map_congr_left, List.map_id]
        intro g member
        rw [if_neg, id]
        intro same
        exact apart (here ▸ same ▸ List.mem_map_of_mem member)
      have gone : valuesOf fields key = [] := valuesOf_eq_nil_iff.mpr (here ▸ apart)
      rw [if_pos here, others]
      by_cases same : name = key
      · rw [if_pos same.symm, if_pos same, same, gone]
      · rw [if_neg (Ne.symm same), if_neg same, if_neg (here ▸ Ne.symm same)]
    · rw [List.map_cons, List.mem_cons] at member
      rw [if_neg here, ih distinct (member.resolve_left (Ne.symm here))]
      by_cases same : name = key
      · rw [if_pos same, if_pos same, if_neg (same ▸ here)]
      · rw [if_neg same, if_neg same]

theorem setField_proto (fields : List (Text × Text)) (value : Text) : setField fields proto value = fields := if_pos rfl

theorem setField_of_ne (ordinary : key ≠ proto) : setField fields key value =
    if key ∈ fields.map Prod.fst then fields.map fun f => if f.1 = key then (key, value) else f
    else fields ++ [(key, value)] := if_neg ordinary

theorem valuesOf_setField (distinct : (fields.map Prod.fst).Nodup) (ordinary : key ≠ proto) :
    valuesOf (setField fields key value) name = if name = key then [value] else valuesOf fields name := by
  rw [setField_of_ne ordinary]
  by_cases known : key ∈ fields.map Prod.fst
  · rw [if_pos known, valuesOf_replace distinct known]
  · rw [if_neg known, valuesOf_append, valuesOf_cons]
    by_cases same : name = key
    · rw [if_pos same.symm, if_pos same, same, valuesOf_eq_nil_iff.mpr known]
      rfl
    · rw [if_neg (Ne.symm same), if_neg same]
      exact List.append_nil _

theorem nodup_setField (distinct : (fields.map Prod.fst).Nodup) (ordinary : key ≠ proto) :
    ((setField fields key value).map Prod.fst).Nodup := by
  rw [setField_of_ne ordinary]
  split
  · rw [List.map_map]
    have same : fields.map (Prod.fst ∘ fun f => if f.1 = key then (key, value) else f) = fields.map Prod.fst := by
      refine List.map_congr_left fun f _ => ?_
      rw [Function.comp_apply]
      split
      next here => exact here.symm
      next => rfl
    rwa [same]
  next unknown =>
    rw [List.map_append, List.map_singleton, ← List.concat_eq_append]
    exact distinct.concat unknown

/-- Of several values under a name, the last one stays. -/
theorem valuesOf_foldl (distinct : (fields.map Prod.fst).Nodup) (ordinary : name ≠ proto) :
    valuesOf (more.foldl (fun fields f => setField fields f.1 f.2) fields) name =
      (valuesOf more name).getLast?.elim (valuesOf fields name) fun value => [value] := by
  induction more generalizing fields with
  | nil => rfl
  | cons f more ih =>
    rw [List.foldl_cons, valuesOf_cons]
    by_cases builtin : f.1 = proto
    · rw [builtin, setField_proto, ih distinct, if_neg (Ne.symm ordinary)]
    · rw [ih (nodup_setField distinct builtin), valuesOf_setField distinct builtin]
      by_cases same : f.1 = name
      · rw [if_pos same.symm, if_pos same, List.getLast?_cons]
        cases (valuesOf more name).getLast? <;> rfl
      · rw [if_neg (Ne.symm same), if_neg same]

theorem valuesOf_foldl_proto (none : proto ∉ fields.map Prod.fst) :
    valuesOf (more.foldl (fun fields f => setField fields f.1 f.2) fields) proto = [] := by
  induction more generalizing fields with
  | nil => exact valuesOf_eq_nil_iff.mpr none
  | cons f more ih =>
    rw [List.foldl_cons]
    by_cases builtin : f.1 = proto
    · rw [builtin, setField_proto]
      exact ih none
    · refine ih ?_
      rw [setField_of_ne builtin]
      split
      · rw [List.map_map, List.mem_map]
        rintro ⟨g, member, same⟩
        rw [Function.comp_apply] at same
        split at same
        · exact builtin same
        · exact none (same ▸ List.mem_map_of_mem member)
      · rw [List.map_append, List.mem_append]
        rintro (old | new)
        · exact none old
        · exact builtin (List.mem_singleton.mp new).symm

end

/-! Which values come through. -/

section
variable {value : Text} {c : Char}

theorem mem_dropWhile {p : Char → Bool} (other : p c = false) : c ∈ value.dropWhile p ↔ c ∈ value := by
  refine ⟨fun member => (List.dropWhile_suffix p).subset member, fun member => ?_⟩
  rw [← List.takeWhile_append_dropWhile (p := p) (l := value), List.mem_append] at member
  rcases member with skipped | kept
  · exact absurd (List.mem_takeWhile_imp skipped) (by simp [other])
  · exact kept

theorem mem_trim (other : isSpace c = false) : c ∈ trim value ↔ c ∈ value := by
  rw [trim, List.mem_reverse, mem_dropWhile other, List.mem_reverse, mem_dropWhile other]

theorem isUpper_iff : c.isUpper ↔ c.val ≥ 'A'.val ∧ c.val ≤ 'Z'.val := by
  change decide (_ ∧ _) = true ↔ _
  exact decide_eq_true_iff

theorem toLower_of_not_isUpper (other : ¬ c.isUpper) : c.toLower = c := dif_neg fun upper => other (isUpper_iff.mpr upper)

theorem toNat_of_isUpper (upper : c.isUpper) : 65 ≤ c.toNat ∧ c.toNat ≤ 90 := by
  simp only [isUpper_iff, ge_iff_le, UInt32.le_iff_toNat_le] at upper
  exact upper

theorem toNat_toLower_of_isUpper (upper : c.isUpper) : c.toLower.toNat = c.toNat + 32 := by
  have high := (toNat_of_isUpper upper).2
  have lower : c.toLower.val = c.val + ('a'.val - 'A'.val) := congrArg Char.val (dif_pos (isUpper_iff.mp upper))
  have widened : c.toLower.toNat = (c.val + ('a'.val - 'A'.val)).toNat := congrArg UInt32.toNat lower
  rw [widened, UInt32.toNat_add]
  exact Nat.mod_eq_of_lt (Nat.lt_of_le_of_lt (Nat.add_le_add_right high 32) (by decide))

theorem toLower_eq_self_iff : c.toLower = c ↔ ¬ c.isUpper := by
  refine ⟨fun same upper => ?_, toLower_of_not_isUpper⟩
  have moved := toNat_toLower_of_isUpper upper
  rw [same] at moved
  omega

theorem isSpace_of_isUpper (upper : c.isUpper) : isSpace c = false := by
  have bounds := toNat_of_isUpper upper
  unfold isSpace
  simp only [Bool.or_eq_false_iff, Bool.and_eq_false_iff, decide_eq_false_iff_not, beq_eq_false_iff_ne]
  omega

theorem toLower_ne_colon (other : c ≠ ':') : c.toLower ≠ ':' := by
  by_cases upper : c.isUpper
  · intro same
    have moved := toNat_toLower_of_isUpper upper
    have low := (toNat_of_isUpper upper).1
    rw [same] at moved
    have colon : ':'.toNat = 58 := rfl
    omega
  · rwa [toLower_of_not_isUpper upper]

theorem colon_not_mem_readValue (value : Text) : ':' ∉ readValue value := by
  rw [readValue, toLowerCase, List.mem_map]
  rintro ⟨c, member, same⟩
  have blank : isSpace ':' = false := by decide
  have other : c ≠ ':' := by
    rintro rfl
    have inside := List.mem_takeWhile_imp ((mem_trim blank).mp member)
    simp at inside
  exact toLower_ne_colon other same

theorem readValue_eq_iff : readValue value = trim value ↔ ':' ∉ value ∧ ∀ c ∈ value, ¬ c.isUpper := by
  have blank : isSpace ':' = false := by decide
  have cut (none : ':' ∉ value) : readValue value = toLowerCase (trim value) := by
    have whole : value.takeWhile (· ≠ ':') = value := by
      rw [List.takeWhile_eq_self_iff]
      intro c member
      simp only [decide_eq_true_eq]
      rintro rfl
      exact none member
    rw [readValue, whole]
  have small : toLowerCase (trim value) = trim value ↔ ∀ c ∈ value, ¬ c.isUpper := by
    rw [toLowerCase]
    conv_lhs => rhs; rw [← List.map_id (trim value)]
    rw [List.map_inj_left]
    refine ⟨fun same c member upper => ?_, fun small c member => toLower_eq_self_iff.mpr (small c ?_)⟩
    · exact toLower_eq_self_iff.mp (same c ((mem_trim (isSpace_of_isUpper upper)).mpr member)) upper
    · rw [trim, List.mem_reverse] at member
      have inner := (List.dropWhile_suffix _).subset member
      rw [List.mem_reverse] at inner
      exact (List.dropWhile_suffix _).subset inner
  constructor
  · intro same
    have none : ':' ∉ value := fun member => colon_not_mem_readValue value (same ▸ (mem_trim blank).mpr member)
    exact ⟨none, small.mp ((cut none).symm.trans same)⟩
  · rintro ⟨none, lower⟩
    exact (cut none).trans (small.mpr lower)

end

section
variable {block : List Byte} {name : Text} {fields : List (Text × Text)} {code : Nat}

theorem valuesOf_map (g : Text → Text) (fields : List (Text × Text)) (name : Text) :
    valuesOf (fields.map fun f => (f.1, g f.2)) name = (valuesOf fields name).map g := by
  rw [valuesOf, valuesOf, List.filter_map, List.map_map, List.map_map]
  rfl

theorem valuesOf_length (fields : List (Text × Text)) (name : Text) :
    (valuesOf fields name).length = (fields.map Prod.fst).count name := by
  induction fields with
  | nil => rfl
  | cons f fields ih =>
    rw [valuesOf_cons, List.map_cons, List.count_cons, ← ih]
    by_cases same : f.1 = name
    · rw [if_pos same, if_pos (beq_iff_eq.mpr same)]
      rfl
    · rw [if_neg same, if_neg (fun equal => same (beq_iff_eq.mp equal))]
      rfl

theorem mem_valuesOf {value : Text} : value ∈ valuesOf fields name ↔ (name, value) ∈ fields := by
  simp only [valuesOf, List.mem_map, List.mem_filter, decide_eq_true_eq]
  constructor
  · rintro ⟨⟨_, _⟩, ⟨member, rfl⟩, rfl⟩
    exact member
  · intro member
    exact ⟨(name, value), ⟨member, rfl⟩, rfl⟩

theorem fieldsOf_eq (block : List Byte) : fieldsOf block =
    ((fieldLines block).map fun f => (f.1, readValue f.2)).foldl (fun fields f => setField fields f.1 f.2) [] := by
  rw [fieldsOf, fieldLines]
  generalize (blockLines block).tail = lines
  generalize ([] : List (Text × Text)) = start
  induction lines generalizing start with
  | nil => rfl
  | cons line lines ih =>
    rw [List.foldl_cons, ih, addHeaderField_eq, List.filterMap_cons]
    cases fieldLine line with
    | none => rfl
    | some f =>
      dsimp only
      by_cases skipped : f.1 = connection
      · rw [if_pos skipped, List.filter_cons_of_neg (by simpa using skipped)]
      · rw [if_neg skipped, List.filter_cons_of_pos (by simpa using skipped)]
        rfl

/-- Under a name of the block the server forwards the last value, as it reads it. -/
theorem valuesOf_fieldsOf (ordinary : name ≠ proto) : valuesOf (fieldsOf block) name =
    ((valuesOf (fieldLines block) name).getLast?.map readValue).toList := by
  have start : (([] : List (Text × Text)).map Prod.fst).Nodup := List.nodup_nil
  rw [fieldsOf_eq, valuesOf_foldl start ordinary, valuesOf_map, List.getLast?_map]
  cases (valuesOf (fieldLines block) name).getLast? <;> rfl

theorem carries_one_iff (ordinary : name ≠ proto) (member : name ∈ (fieldLines block).map Prod.fst) :
    valuesOf (fieldsOf block) name = (valuesOf (fieldLines block) name).map trim ↔
      ((fieldLines block).map Prod.fst).count name = 1 ∧ ∀ value ∈ valuesOf (fieldLines block) name, readValue value = trim value := by
  rw [valuesOf_fieldsOf ordinary, ← valuesOf_length]
  have some_ : valuesOf (fieldLines block) name ≠ [] := fun none => valuesOf_eq_nil_iff.mp none member
  generalize valuesOf (fieldLines block) name = values at some_
  cases values with
  | nil => exact absurd rfl some_
  | cons value others =>
    cases others with
    | nil => simp
    | cons other others =>
      refine iff_of_false (fun same => ?_) (fun both => by simp at both)
      have lengths := congrArg List.length same
      rw [List.length_map, List.getLast?_cons] at lengths
      simp at lengths

theorem carries_iff : Carries block (fieldsOf block) ↔ ((fieldLines block).map Prod.fst).Nodup ∧
    proto ∉ (fieldLines block).map Prod.fst ∧ ∀ f ∈ fieldLines block, ':' ∉ f.2 ∧ ∀ c ∈ f.2, ¬ c.isUpper := by
  constructor
  · intro carries
    have ordinary : proto ∉ (fieldLines block).map Prod.fst := by
      intro member
      have same := carries proto member
      rw [fieldsOf_eq, valuesOf_foldl_proto (by simp)] at same
      exact valuesOf_eq_nil_iff.mp (List.map_eq_nil_iff.mp same.symm) member
    have one (name : Text) (member : name ∈ (fieldLines block).map Prod.fst) :=
      (carries_one_iff (fun same => ordinary (same ▸ member)) member).mp (carries name member)
    refine ⟨?_, ordinary, fun f member => ?_⟩
    · refine List.nodup_iff_count_eq_one.mpr fun name member => (one name member).1
    · exact readValue_eq_iff.mp ((one f.1 (List.mem_map_of_mem member)).2 f.2 (mem_valuesOf.mpr member))
  · rintro ⟨distinct, ordinary, small⟩ name member
    refine (carries_one_iff (fun same => ordinary (same ▸ member)) member).mpr ⟨?_, fun value among => ?_⟩
    · exact List.nodup_iff_count_eq_one.mp distinct name member
    · exact readValue_eq_iff.mpr (small (name, value) (mem_valuesOf.mp among))

end

section
variable {block seen tail body : List Byte} {code : Nat} {p : HttpProcessor}

theorem exists_threeDigits (status : statusCode (statusLine block) = some code) :
    ∃ code', threeDigits (statusLine block) = some code' := by
  rw [threeDigits_of_statusCode status]
  cases threeDigits ((statusLine block).takeWhile (· ≠ ' ')) <;> simp

theorem Forwards.plain {id : ProcId} (good : Block block) (status : statusCode (statusLine block) = some code)
    (kept : p.headerStr = asciiText seen) (ends : seen ++ tail = block)
    (forwards : Forwards block code id p (tail ++ body)) : Plain block code := by
  obtain ⟨code', digits⟩ := exists_threeDigits status
  obtain ⟨fields, body', same, carries⟩ := forwards
  rw [processHeader_whole good digits kept ends] at same
  obtain ⟨head, _⟩ := List.cons.inj same
  injection head with _ code_eq fields_eq
  subst code_eq fields_eq
  obtain ⟨distinct, ordinary, small⟩ := carries_iff.mp carries
  exact ⟨(passes_code_iff status).mp digits, distinct, ordinary, small⟩

/-- The call that completes a header block forwards its status and its fields if and only if each name
is there once, with a value that has neither capital letters nor a colon, and no digits of the version
are taken for the code. -/
theorem forwards_iff (good : Block block) (status : statusCode (statusLine block) = some code)
    (kept : p.headerStr = asciiText seen) (ends : seen ++ tail = block) (id : ProcId) :
    Forwards block code id p (tail ++ body) ↔ Plain block code := by
  refine ⟨fun forwards => forwards.plain good status kept ends, fun plain => ?_⟩
  have digits := (passes_code_iff status).mpr plain.version
  rw [Forwards, processHeader_whole good digits kept ends]
  exact ⟨_, _, rfl, carries_iff.mpr ⟨plain.distinct, plain.ordinary, plain.small⟩⟩

end

/-- A processor that has seen the beginning of a block. -/
def halfway (seen : List Byte) : HttpProcessor := ⟨"u".toList, 0, false, asciiText seen, seen.length⟩

theorem halfway_headerStr (seen : List Byte) : (halfway seen).headerStr = asciiText seen := rfl

theorem forwards_iff_plainBlock :
    Forwards plainBlock 200 0 (halfway (plainBlock.take 20)) (plainBlock.drop 20 ++ [0xff]) ↔ Plain plainBlock 200 := by
  have status : statusCode (statusLine plainBlock) = some 200 := by decide +kernel
  exact forwards_iff block_plainBlock status (halfway_headerStr _) (List.take_append_drop 20 plainBlock) 0

def redirectBlock : List Byte := encodeUtf8 "HTTP/1.1 302 Found\r\nLocation: http://a/\r\n\r\n".toList

theorem block_redirectBlock : Block redirectBlock where
  ascii := by decide +kernel
  long := by decide +kernel
  ended := firstAt_of_firstOccurrence (by decide +kernel)

/-- Of an address only the text before its colon is forwarded. -/
theorem address_not_forwarded :
    ¬ ∀ (block seen tail body : List Byte) (code : Nat) (id : ProcId) (p : HttpProcessor), Block block →
      statusCode (statusLine block) = some code → p.headerStr = asciiText seen → seen ++ tail = block →
      Forwards block code id p (tail ++ body) := by
  intro always
  have status : statusCode (statusLine redirectBlock) = some 302 := by decide +kernel
  have kept := halfway_headerStr []
  have ends : [] ++ redirectBlock = redirectBlock := List.nil_append _
  have forwards := always redirectBlock [] redirectBlock [] 302 0 (halfway []) block_redirectBlock status kept ends
  have plain := forwards.plain block_redirectBlock status kept ends
  have member : ("location".toList, " http://a/".toList) ∈ fieldLines redirectBlock := by decide +kernel
  have colon : ':' ∈ " http://a/".toList := by decide +kernel
  exact (plain.small _ member).1 colon

end WebTunnel.Server.Fields
