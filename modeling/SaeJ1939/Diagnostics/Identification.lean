/-
  SaeJ1939.Diagnostics.Identification — who and what an ECU says it is
  (`identification.rs`).

  An identification payload is a row of fields, each followed by an
  asterisk; the one that names the software has a count of them in front.
  Nothing keeps an asterisk out of a field, and one that has it is read
  back as two.

  Main results:
    * `length_fields_payload` — how many fields are read back.
    * `encode_ok`, `encode_short` — what encoding writes.
    * `roundTrips_iff` — exactly which lists are read back as they were
      written, of either kind of payload.
-/
import SaeJ1939.Diagnostics.Message

namespace SaeJ1939.Diagnostics.Identification

/-! ## §1. Fields. -/

/-- The byte that terminates each field: ASCII `*`. -/
def delimiter : UInt8 := 0x2A

/-- An iterator over the delimited fields of a payload. -/
structure Fields where
  rest : List UInt8
  deriving Repr, DecidableEq

namespace Fields

/-- The next field.  Trailing bytes without a delimiter are a field too. -/
def next (f : Fields) : Option (List UInt8 × Fields) :=
  if f.rest.isEmpty then none
  else
    match f.rest.findIdx? (· == delimiter) with
    | some index => some (f.rest.take index, ⟨f.rest.drop (index + 1)⟩)
    | none => some (f.rest, ⟨[]⟩)

theorem next_lt {f f' : Fields} {field : List UInt8} (h : f.next = some (field, f')) :
    f'.rest.length < f.rest.length := by
  unfold next at h
  split at h
  next => cases h
  next hne =>
    have hpos : 0 < f.rest.length := by
      rw [List.length_pos_iff]
      simpa using hne
    split at h
    next index _ =>
      cases h
      rw [List.length_drop]
      omega
    next =>
      cases h
      exact hpos

/-- Every field that is left, in order. -/
def collect (f : Fields) : List (List UInt8) :=
  match _h : f.next with
  | none => []
  | some (field, f') => field :: f'.collect
termination_by f.rest.length
decreasing_by exact next_lt _h

/-- The `index`-th field that is left (`Iterator::nth`). -/
def nth (f : Fields) : Nat → Option (List UInt8)
  | 0 => f.next.map Prod.fst
  | index + 1 => f.next.bind fun p => p.2.nth index

end Fields

/-- Split an identification payload into its fields. -/
def fields (data : List UInt8) : List (List UInt8) := (Fields.mk data).collect

/-- The `index`-th field, if the payload has that many. -/
def field (data : List UInt8) (index : Nat) : Option (List UInt8) := (Fields.mk data).nth index

/-- Collecting is taking one field and collecting the rest. -/
theorem collect_eq (f : Fields) :
    f.collect = match f.next with
      | none => []
      | some (field, f') => field :: f'.collect := by
  rw [Fields.collect]
  split
  next h => rw [h]
  next h => rw [h]

theorem fields_nil : fields [] = [] := by
  rw [fields, collect_eq]
  rfl

/-- A delimiter in front ends an empty field. -/
theorem fields_delimiter (rest : List UInt8) : fields (delimiter :: rest) = [] :: fields rest := by
  rw [fields, collect_eq]
  rfl

/-- **A field ends at its first delimiter.** -/
theorem fields_terminated {value : List UInt8} (h : delimiter ∉ value) (rest : List UInt8) :
    fields (value ++ delimiter :: rest) = value :: fields rest := by
  have hnone : ∀ b ∈ value, (b == delimiter) = false := by
    intro b hb
    rw [beq_eq_false_iff_ne]
    exact fun he => h (he ▸ hb)
  have hindex : (value ++ delimiter :: rest).findIdx? (· == delimiter) = some value.length := by
    rw [List.findIdx?_append, List.findIdx?_eq_none_iff.mpr hnone, List.findIdx?_cons]
    simp
  have hnext : (Fields.mk (value ++ delimiter :: rest)).next = some (value, ⟨rest⟩) := by
    unfold Fields.next
    rw [if_neg (by simp)]
    simp only [hindex]
    rw [List.take_left, ← List.drop_drop, List.drop_left]
    rfl
  rw [fields, collect_eq, hnext]
  rfl

/-- **The accessor reads the field that iterating yields.** -/
theorem field_eq (data : List UInt8) (index : Nat) : field data index = (fields data)[index]? := by
  unfold field fields
  generalize Fields.mk data = f
  induction index generalizing f with
  | zero =>
    rw [collect_eq, Fields.nth]
    cases f.next with
    | none => rfl
    | some p => rfl
  | succ index ih =>
    rw [collect_eq, Fields.nth]
    cases f.next with
    | none => rfl
    | some p => exact ih p.2

/-- A byte in front of a field is a byte more of it. -/
theorem length_fields_cons {b : UInt8} (hb : b ≠ delimiter) {data : List UInt8} (hne : data ≠ []) :
    (fields (b :: data)).length = (fields data).length := by
  have hbf : (b == delimiter) = false := beq_eq_false_iff_ne.mpr hb
  have hdata : data.isEmpty = false := by simpa using hne
  rw [fields, collect_eq, fields, collect_eq]
  unfold Fields.next
  simp only [hdata, List.isEmpty_cons, Bool.false_eq_true, if_false, List.findIdx?_cons, hbf]
  cases data.findIdx? (· == delimiter) with
  | none => rfl
  | some index => rfl

/-- **A delimiter inside a value ends a field of its own.** -/
theorem length_fields_terminated (value rest : List UInt8) :
    (fields (value ++ delimiter :: rest)).length
      = value.count delimiter + 1 + (fields rest).length := by
  induction value with
  | nil =>
    rw [List.nil_append, fields_delimiter, List.count_nil, List.length_cons]
    omega
  | cons b value ih =>
    rw [List.cons_append]
    -- a delimiter ends a field here; any other byte belongs to the field behind it
    by_cases hb : b = delimiter
    · rw [hb, fields_delimiter, List.length_cons, ih, List.count_cons_self]
      omega
    · rw [length_fields_cons hb (by simp), ih, List.count_cons_of_ne hb]

/-! ## §2. Encoding. -/

/-- `out[written..].copy_from_slice(value); out[written] = DELIMITER`. -/
def writeField (state : Nat × List UInt8) (value : List UInt8) : Nat × List UInt8 :=
  let (written, out) := state
  let out := copyInto out written value
  let written := written + value.length
  let out := out.set written delimiter
  (written + 1, out)

/-- How many bytes the fields of a payload take. -/
def needed (values : List (List UInt8)) : Nat := (values.map fun value => value.length + 1).sum

/-- Build an identification payload: each field followed by a `*`. -/
def encode (values : List (List UInt8)) (out : List UInt8) : Result Nat × List UInt8 :=
  if out.length < needed values then (.error (.shortPayload (needed values) out.length), out)
  else
    let (written, out) := values.foldl writeField (0, out)
    (.ok written, out)

/-- The bytes of a payload. -/
def payload (values : List (List UInt8)) : List UInt8 :=
  values.flatMap fun value => value ++ [delimiter]

theorem length_payload (values : List (List UInt8)) : (payload values).length = needed values := by
  rw [payload, needed, List.length_flatMap]
  simp

/-- One field, behind what is written. -/
theorem writeField_append {pre rest value : List UInt8} (h : value.length < rest.length) :
    writeField (pre.length, pre ++ rest) value
      = ((pre ++ (value ++ [delimiter])).length,
          pre ++ (value ++ [delimiter]) ++ rest.drop (value.length + 1)) := by
  have hrest : rest.drop value.length = rest[value.length] :: rest.drop (value.length + 1) :=
    List.drop_eq_getElem_cons h
  have hlength : pre.length + value.length = (pre ++ value).length := List.length_append.symm
  unfold writeField
  simp only [copyInto_append rfl, hrest, hlength, List.set_append_right _ _ le_rfl, Nat.sub_self,
    List.set_cons_zero]
  simp [Nat.add_assoc]

/-- The fields, one behind the other. -/
theorem foldl_writeField (values : List (List UInt8)) (pre rest : List UInt8)
    (h : needed values ≤ rest.length) :
    values.foldl writeField (pre.length, pre ++ rest)
      = ((pre ++ payload values).length, pre ++ payload values ++ rest.drop (needed values)) := by
  induction values generalizing pre rest with
  | nil => simp [payload, needed]
  | cons value values ih =>
    have hneeded : needed (value :: values) = value.length + 1 + needed values := by
      rw [needed, List.map_cons, List.sum_cons]
      rfl
    have hpayload : payload (value :: values) = value ++ [delimiter] ++ payload values := rfl
    rw [hneeded] at h
    -- what is written so far grows by one field, and the buffer behind it shrinks
    rw [List.foldl_cons, writeField_append (by omega), ih _ _ (by rw [List.length_drop]; omega),
      List.drop_drop, hneeded, hpayload]
    simp only [List.append_assoc]

/-- **What encoding writes**: the payload, and what the buffer held
beyond. -/
theorem encode_ok {values : List (List UInt8)} {out : List UInt8}
    (h : needed values ≤ out.length) :
    encode values out = (.ok (needed values), payload values ++ out.drop (needed values)) := by
  have hfold := foldl_writeField values [] out h
  rw [List.length_nil, List.nil_append, List.nil_append, length_payload] at hfold
  rw [encode, if_neg (Nat.not_lt.mpr h), hfold]

theorem encode_short {values : List (List UInt8)} {out : List UInt8}
    (h : out.length < needed values) :
    encode values out = (.error (.shortPayload (needed values) out.length), out) :=
  if_pos h

/-- **Fields without a delimiter are read back.** -/
theorem fields_payload {values : List (List UInt8)} (h : ∀ value ∈ values, delimiter ∉ value) :
    fields (payload values) = values := by
  induction values with
  | nil => exact fields_nil
  | cons value values ih =>
    have hpayload : payload (value :: values) = value ++ delimiter :: payload values := by
      simp [payload]
    rw [hpayload, fields_terminated (h value List.mem_cons_self),
      ih fun v hv => h v (List.mem_cons_of_mem _ hv)]

/-- So the accessor finds each of them in its place. -/
theorem field_payload {values : List (List UInt8)} (h : ∀ value ∈ values, delimiter ∉ value)
    (index : Nat) : field (payload values) index = values[index]? := by
  rw [field_eq, fields_payload h]

/-- **How many fields are read back**: one more for every delimiter inside
a value. -/
theorem length_fields_payload (values : List (List UInt8)) :
    (fields (payload values)).length
      = values.length + (values.map (List.count delimiter)).sum := by
  induction values with
  | nil => rw [payload, List.flatMap_nil, fields_nil]; rfl
  | cons value values ih =>
    have hpayload : payload (value :: values) = value ++ delimiter :: payload values := by
      simp [payload]
    rw [hpayload, length_fields_terminated, ih, List.map_cons, List.sum_cons, List.length_cons]
    omega

/-! ## §3. Software identification. -/

/-- Software Identification: a count byte, then the fields. -/
structure SoftwareIdentification where
  declared : UInt8
  data : List UInt8
  deriving Repr, DecidableEq

namespace SoftwareIdentification

/-- Parse a payload, consuming the leading count byte. -/
def parse : List UInt8 → Result SoftwareIdentification
  | [] => .error (.shortPayload 1 0)
  | declared :: rest => .ok ⟨declared, rest⟩

/-- The field count the message claims. -/
def declaredFieldCount (s : SoftwareIdentification) : UInt8 := s.declared

/-- Every field, in order. -/
def fields (s : SoftwareIdentification) : List (List UInt8) := Identification.fields s.data

/-- The number of fields actually present. -/
def fieldCount (s : SoftwareIdentification) : Nat := s.fields.length

/-- Whether the declared count matches what the payload carries. -/
def countIsConsistent (s : SoftwareIdentification) : Bool :=
  s.fieldCount == s.declaredFieldCount.toNat

/-- Encode a payload: a count byte followed by the delimited fields. -/
def encode (values : List (List UInt8)) (out : List UInt8) : Result Nat × List UInt8 :=
  if values.length > 255 then
    (.error (.valueOutOfRange "software identification field count" (values.length % 2 ^ 32)), out)
  else
    match out with
    | [] => (.error (.shortPayload 1 0), out)
    | _ :: rest =>
      -- the count is written before it is known whether the fields fit
      let (result, rest) := Identification.encode values rest
      (result.map (1 + ·), UInt8.ofNat values.length :: rest)

variable {values : List (List UInt8)} {out : List UInt8}

theorem encode_ok (hcount : values.length ≤ 255) (h : 1 + needed values ≤ out.length) :
    encode values out
      = (.ok (1 + needed values), UInt8.ofNat values.length :: payload values
          ++ out.drop (1 + needed values)) := by
  cases out with
  | nil => exact absurd h (by simp)
  | cons b rest =>
    have hrest : needed values ≤ rest.length := by
      rw [List.length_cons] at h
      omega
    have hdrop : (b :: rest).drop (1 + needed values) = rest.drop (needed values) := by
      rw [Nat.add_comm, List.drop_succ_cons]
    rw [encode, if_neg (by omega)]
    simp only [Identification.encode_ok hrest, hdrop]
    rfl

/-- What does not fit, or cannot be counted, is refused. -/
theorem encode_refused (h : 255 < values.length ∨ out.length < 1 + needed values) :
    ∃ e out', encode values out = (.error e, out') := by
  unfold encode
  split
  next => exact ⟨_, _, rfl⟩
  next hcount =>
    cases out with
    | nil => exact ⟨_, _, rfl⟩
    | cons b rest =>
      have hrest : rest.length < needed values := by
        rw [List.length_cons] at h
        omega
      simp only [Identification.encode_short hrest]
      exact ⟨_, _, rfl⟩

end SoftwareIdentification

/-! ## §4. Round trips. -/

/-- No field holds the byte that ends one. -/
def Representable (values : List (List UInt8)) : Prop := ∀ value ∈ values, delimiter ∉ value

instance (values : List (List UInt8)) : Decidable (Representable values) :=
  inferInstanceAs (Decidable (∀ value ∈ values, delimiter ∉ value))

/-- A list is read back from what encoding wrote, or refused because it
cannot be represented or does not fit. -/
def RoundTrips (values : List (List UInt8)) (out : List UInt8) : Prop :=
  match encode values out with
  | (.ok written, out') => fields (out'.take written) = values
  | (.error _, _) => ¬ Representable values ∨ out.length < needed values

/-- The same of a payload with a count, whose count has to be right. -/
def SoftwareIdentification.RoundTrips (values : List (List UInt8)) (out : List UInt8) : Prop :=
  match SoftwareIdentification.encode values out with
  | (.ok written, out') => ∃ s, SoftwareIdentification.parse (out'.take written) = .ok s
      ∧ s.fields = values ∧ s.declaredFieldCount.toNat = values.length
      ∧ s.fieldCount = values.length ∧ s.countIsConsistent = true
  | (.error _, _) => ¬ Representable values ∨ out.length < 1 + needed values
      ∨ 255 < values.length

/-- **Only what is representable is read back.** -/
theorem fields_payload_iff (values : List (List UInt8)) :
    fields (payload values) = values ↔ Representable values := by
  constructor
  · intro h value hv hmem
    have hlength := length_fields_payload values
    have hpos : 0 < value.count delimiter := List.count_pos_iff.mpr hmem
    have hle : value.count delimiter ≤ (values.map (List.count delimiter)).sum :=
      List.le_sum_of_mem (List.mem_map_of_mem hv)
    rw [h] at hlength
    omega
  · exact fields_payload

/-- **Exactly which lists round-trip**: those in which no field holds the
delimiter, and those that are refused for their size. -/
theorem roundTrips_iff (values : List (List UInt8)) (out : List UInt8) :
    (RoundTrips values out ↔ Representable values ∨ out.length < needed values)
      ∧ (SoftwareIdentification.RoundTrips values out ↔
          Representable values ∨ out.length < 1 + needed values ∨ 255 < values.length) := by
  constructor
  · unfold RoundTrips
    by_cases hfits : needed values ≤ out.length
    · -- what is written is the payload, whatever its fields hold
      have htake : (payload values ++ out.drop (needed values)).take (needed values)
          = payload values := by
        rw [← length_payload, List.take_left]
      rw [encode_ok hfits]
      show fields ((payload values ++ out.drop (needed values)).take (needed values)) = values ↔ _
      rw [htake, fields_payload_iff]
      exact (or_iff_left (Nat.not_lt.mpr hfits)).symm
    · have hshort : out.length < needed values := Nat.lt_of_not_le hfits
      rw [encode_short hshort]
      exact iff_of_true (Or.inr hshort) (Or.inr hshort)
  · unfold SoftwareIdentification.RoundTrips
    by_cases hrefused : out.length < 1 + needed values ∨ 255 < values.length
    · obtain ⟨e, out', he⟩ := SoftwareIdentification.encode_refused hrefused.symm
      rw [he]
      exact iff_of_true (Or.inr hrefused) (Or.inr hrefused)
    · have hcount : values.length ≤ 255 := by omega
      have hfits : 1 + needed values ≤ out.length := by omega
      have htake : (UInt8.ofNat values.length :: payload values
          ++ out.drop (1 + needed values)).take (1 + needed values)
          = UInt8.ofNat values.length :: payload values := by
        have hlength : (UInt8.ofNat values.length :: payload values).length
            = 1 + needed values := by
          rw [List.length_cons, length_payload, Nat.add_comm]
        rw [← hlength, List.take_left]
      have hdeclared : (UInt8.ofNat values.length).toNat = values.length := by
        rw [UInt8.toNat_ofNat']
        omega
      rw [SoftwareIdentification.encode_ok hcount hfits]
      show (∃ s, SoftwareIdentification.parse ((UInt8.ofNat values.length :: payload values
          ++ out.drop (1 + needed values)).take (1 + needed values)) = .ok s ∧ _) ↔ _
      rw [htake, or_iff_left hrefused, ← fields_payload_iff]
      constructor
      · rintro ⟨s, hs, hfields, -⟩
        cases hs
        exact hfields
      · intro h
        have hfieldCount : (fields (payload values)).length = values.length := congrArg _ h
        refine ⟨_, rfl, h, hdeclared, hfieldCount, ?_⟩
        show ((fields (payload values)).length == (UInt8.ofNat values.length).toNat) = true
        rw [hfieldCount, hdeclared, beq_self_eq_true]

/-- A field with an asterisk in it is accepted and read back as two. -/
theorem asterisk_splits_field :
    encode [[0x61, 0x2A, 0x62]] (List.replicate 8 0)
        = (.ok 4, [0x61, 0x2A, 0x62, 0x2A, 0, 0, 0, 0])
      ∧ fields [0x61, 0x2A, 0x62, 0x2A] = [[0x61], [0x62]]
      ∧ ¬ RoundTrips [[0x61, 0x2A, 0x62]] (List.replicate 8 0) := by
  have hencode : encode [[0x61, 0x2A, 0x62]] (List.replicate 8 0)
      = (.ok 4, [0x61, 0x2A, 0x62, 0x2A, 0, 0, 0, 0]) := rfl
  have hfields : fields [0x61, 0x2A, 0x62, 0x2A] = [[0x61], [0x62]] := by
    have hfirst := fields_terminated (show delimiter ∉ [0x61] by decide) [0x62, 0x2A]
    have hsecond := fields_terminated (show delimiter ∉ [0x62] by decide) []
    rw [fields_nil] at hsecond
    exact hfirst.trans (congrArg _ hsecond)
  refine ⟨hencode, hfields, ?_⟩
  intro h
  unfold RoundTrips at h
  rw [hencode] at h
  exact absurd (hfields.symm.trans h) (by decide)

end SaeJ1939.Diagnostics.Identification
