/-
  SaeJ1939.Core.Id — the 29-bit CAN identifier (`id.rs`).

  Main results:
    * `Id.fromParts_eq_ok` — when assembling an identifier succeeds, and
      its value as a sum of disjoint fields.
    * `Id.pgn_fromParts`, `Id.sourceAddress_fromParts`,
      `Id.destinationAddress_fromParts` — the accessors return the parts
      an identifier was assembled from.
    * `Id.fromParts_parts` — an identifier is rebuilt from its parts.
    * `Id.parts_one_to_one` — parts and identifiers correspond.
-/
import SaeJ1939.Core.Pgn
import SaeJ1939.Lib.Text

namespace SaeJ1939

/-- A 29-bit extended CAN identifier. -/
structure Id where
  raw : Nat
  raw_le : raw ≤ 0x1FFFFFFF
  deriving DecidableEq

namespace Id

/-! ## §1. Accessors. -/

/-- Decode a raw identifier, which must fit 29 bits. -/
def new (raw : Nat) : Result Id :=
  if h : raw > 0x1FFFFFFF then .error (.invalidId raw) else .ok ⟨raw, Nat.le_of_not_gt h⟩

/-- Prints as the eight hex digits every CAN tool shows. -/
def display (id : Id) : List Char := Text.zeroPadded 8 (Text.upperHex id.raw)

/-- The 3-bit message priority (bits 28..26). -/
def priority (id : Id) : Priority := Priority.newSaturating ((id.raw >>> 26) &&& 0x7)

/-- The parameter group this identifier names. -/
def pgn (id : Id) : Pgn := Pgn.newMasked ((id.raw >>> 8) &&& Pgn.max)

/-- Which ECU sent this frame (bits 7..0). -/
def sourceAddress (id : Id) : Address := Address.ofNat id.raw

/-- The raw PDU specific byte (bits 15..8). -/
def pduSpecific (id : Id) : Nat := (id.raw >>> 8) % 256

/-- The PDU format byte (bits 23..16). -/
def pduFormat (id : Id) : Nat := (id.raw >>> 16) % 256

/-- Whether this frame uses destination-specific addressing. -/
def isPdu1 (id : Id) : Bool := id.pduFormat < Pgn.pdu2FormatMin

/-- The destination address, for a PDU1 frame. -/
def destinationAddress (id : Id) : Option Address :=
  if id.isPdu1 then some (Address.ofNat id.pduSpecific) else none

/-- Whether this frame is a broadcast: PDU2, or PDU1 to the global
address. -/
def isBroadcast (id : Id) : Bool :=
  match id.destinationAddress with
  | some destination => destination.isBroadcast
  | none => true

/-- Whether an ECU at `address` should process this frame. -/
def isAddressedTo (id : Id) (address : Address) : Bool :=
  match id.destinationAddress with
  | some destination => destination.isBroadcast || destination == address
  | none => true

theorem ext_raw {a b : Id} (h : a.raw = b.raw) : a = b := by
  cases a; cases b
  cases h
  rfl

/-- **An identifier is decoded exactly if it fits 29 bits.** -/
theorem new_eq_ok {raw : Nat} {id : Id} :
    new raw = .ok id ↔ raw ≤ 0x1FFFFFFF ∧ id.raw = raw := by
  unfold new
  split
  next h =>
    constructor
    · intro hid
      cases hid
    · rintro ⟨hle, -⟩
      exact absurd h (Nat.not_lt.mpr hle)
  next h =>
    constructor
    · intro hid
      cases hid
      exact ⟨Nat.le_of_not_gt h, rfl⟩
    · rintro ⟨-, hraw⟩
      exact congrArg Except.ok (ext_raw hraw.symm)

/-! ## §2. Assembling an identifier. -/

/-- The raw value `from_parts` assembles. -/
def assemble (priority : Priority) (pgn : Pgn) (destination source : Address) : Nat :=
  (priority.raw <<< 26) ||| (pgn.raw <<< 8)
    ||| ((if pgn.isPdu1 then destination.asU8 else 0) <<< 8) ||| source.asU8

/-- The PDU specific byte `from_parts` writes. -/
theorem ps_lt (pgn : Pgn) (destination : Address) :
    (if pgn.isPdu1 then destination.asU8 else 0) < 256 := by
  have := destination.asU8_lt
  split <;> omega

/-- The fields of an assembled identifier do not overlap. -/
theorem assemble_eq (priority : Priority) (pgn : Pgn) (destination source : Address) :
    assemble priority pgn destination source
      = priority.raw * 2 ^ 26
        + (pgn.raw + (if pgn.isPdu1 then destination.asU8 else 0)) * 2 ^ 8 + source.asU8 := by
  have hsrc := source.asU8_lt
  have hps := ps_lt pgn destination
  have hpgn := pgn.raw_lt
  unfold assemble
  set ps := if pgn.isPdu1 then destination.asU8 else 0 with hps_def
  -- the PGN's low byte is free wherever `ps` is not zero
  have hor : pgn.raw ||| ps = pgn.raw + ps := by
    by_cases h1 : pgn.isPdu1 = true
    · have hlow := Pgn.low_byte_of_pdu1 h1
      have hsplit : pgn.raw = (pgn.raw / 256) <<< 8 := by rw [Nat.shiftLeft_eq]; omega
      rw [hsplit, ← Nat.shiftLeft_add_eq_or_of_lt (by omega)]
    · rw [hps_def, if_neg h1, Nat.or_zero, Nat.add_zero]
  have hlt : pgn.raw + ps < 2 ^ 18 := by
    by_cases h1 : pgn.isPdu1 = true
    · have := Pgn.low_byte_of_pdu1 h1
      omega
    · rw [hps_def, if_neg h1, Nat.add_zero]
      exact hpgn
  have hlow26 : (pgn.raw + ps) <<< 8 + source.asU8 < 2 ^ 26 := by
    rw [Nat.shiftLeft_eq]
    omega
  calc priority.raw <<< 26 ||| pgn.raw <<< 8 ||| ps <<< 8 ||| source.asU8
      = priority.raw <<< 26 ||| ((pgn.raw + ps) <<< 8 ||| source.asU8) := by
        rw [Nat.or_assoc (priority.raw <<< 26), ← Nat.shiftLeft_or_distrib, hor, Nat.or_assoc]
    _ = priority.raw <<< 26 ||| ((pgn.raw + ps) <<< 8 + source.asU8) := by
        rw [Nat.shiftLeft_add_eq_or_of_lt (by omega)]
    _ = priority.raw <<< 26 + ((pgn.raw + ps) <<< 8 + source.asU8) :=
        (Nat.shiftLeft_add_eq_or_of_lt hlow26 _).symm
    _ = priority.raw * 2 ^ 26 + (pgn.raw + ps) * 2 ^ 8 + source.asU8 := by
        rw [Nat.shiftLeft_eq, Nat.shiftLeft_eq, Nat.add_assoc]

theorem assemble_le (priority : Priority) (pgn : Pgn) (destination source : Address) :
    assemble priority pgn destination source ≤ 0x1FFFFFFF := by
  have hp := priority.raw_le
  have hsrc := source.asU8_lt
  have hps := ps_lt pgn destination
  have hpgn := pgn.raw_lt
  rw [assemble_eq]
  by_cases h1 : pgn.isPdu1 = true
  · have := Pgn.low_byte_of_pdu1 h1
    omega
  · rw [if_neg h1] at hps ⊢
    omega

/-- Assemble an identifier from its components.  A PDU2 group cannot be
addressed to a specific ECU. -/
def fromParts (priority : Priority) (pgn : Pgn) (destination source : Address) : Result Id :=
  if pgn.isPdu2 && !destination.isBroadcast then .error .destinationMismatch
  else .ok ⟨assemble priority pgn destination source, assemble_le ..⟩

/-- Assemble a broadcast identifier. -/
def broadcast (priority : Priority) (pgn : Pgn) (source : Address) : Id :=
  match fromParts priority pgn Address.global source with
  | .ok id => id
  | .error _ => ⟨0, by decide⟩

/-! ## §3. Assembling and reading back. -/

variable {priority : Priority} {pgn : Pgn} {destination source : Address} {id : Id}

theorem fromParts_eq_ok :
    fromParts priority pgn destination source = .ok id ↔
      (pgn.isPdu1 = true ∨ destination = Address.global)
        ∧ id.raw = assemble priority pgn destination source := by
  unfold fromParts
  split
  next hc =>
    simp only [Pgn.isPdu2, Bool.and_eq_true, Bool.not_eq_true', Bool.eq_false_iff, ne_eq,
      Address.isBroadcast_iff] at hc
    simp [hc.1, hc.2]
  next hc =>
    have hor : pgn.isPdu1 = true ∨ destination = Address.global := by
      by_contra hn
      push Not at hn
      exact hc (by simp [Pgn.isPdu2, Address.isBroadcast, hn.1, hn.2])
    simp only [Except.ok.injEq, hor, true_and]
    constructor
    · rintro rfl
      rfl
    · exact fun hr => (ext_raw hr).symm

/-- A destination-specific group can be sent to any address. -/
theorem fromParts_of_pdu1 (h : pgn.isPdu1 = true) :
    fromParts priority pgn destination source
      = .ok ⟨assemble priority pgn destination source, assemble_le ..⟩ := by
  simp [fromParts, Pgn.isPdu2, h]

/-- So it can always be built. -/
theorem exists_fromParts (priority : Priority) (destination source : Address)
    (h : pgn.isPdu1 = true) : ∃ id, fromParts priority pgn destination source = .ok id :=
  ⟨_, fromParts_of_pdu1 h⟩

/-- A broadcast identifier is the one assembled for the global address. -/
theorem fromParts_global :
    fromParts priority pgn Address.global source = .ok (broadcast priority pgn source) := by
  have : fromParts priority pgn Address.global source
      = .ok ⟨assemble priority pgn Address.global source, assemble_le ..⟩ := by
    simp [fromParts, Address.isBroadcast]
  rw [broadcast, this]

theorem sourceAddress_fromParts (h : fromParts priority pgn destination source = .ok id) :
    id.sourceAddress = source := by
  obtain ⟨-, hraw⟩ := fromParts_eq_ok.mp h
  apply Address.asU8_inj
  have := source.asU8_lt
  rw [sourceAddress, Address.asU8_ofNat, hraw, assemble_eq]
  omega

theorem pduFormat_fromParts (h : fromParts priority pgn destination source = .ok id) :
    id.pduFormat = pgn.pduFormat := by
  obtain ⟨-, hraw⟩ := fromParts_eq_ok.mp h
  have hsrc := source.asU8_lt
  have hps := ps_lt pgn destination
  have hpgn := pgn.raw_lt
  rw [pduFormat, Pgn.pduFormat, Nat.shiftRight_eq_div_pow, Nat.shiftRight_eq_div_pow, hraw,
    assemble_eq]
  by_cases h1 : pgn.isPdu1 = true
  · have := Pgn.low_byte_of_pdu1 h1
    omega
  · rw [if_neg h1]
    omega

theorem isPdu1_fromParts (h : fromParts priority pgn destination source = .ok id) :
    id.isPdu1 = pgn.isPdu1 := by
  rw [isPdu1, Pgn.isPdu1, pduFormat_fromParts h]

/-- The group and PDU specific fields of an assembled identifier. -/
theorem raw_shift_fromParts (h : fromParts priority pgn destination source = .ok id) :
    (id.raw >>> 8) &&& Pgn.max = pgn.raw + (if pgn.isPdu1 then destination.asU8 else 0) := by
  obtain ⟨-, hraw⟩ := fromParts_eq_ok.mp h
  have hsrc := source.asU8_lt
  have hps := ps_lt pgn destination
  have hpgn := pgn.raw_lt
  have hmax : Pgn.max = 2 ^ 18 - 1 := rfl
  rw [hmax, Nat.and_two_pow_sub_one_eq_mod, Nat.shiftRight_eq_div_pow, hraw, assemble_eq]
  by_cases h1 : pgn.isPdu1 = true
  · have := Pgn.low_byte_of_pdu1 h1
    omega
  · rw [if_neg h1]
    omega

/-- **The group survives assembly**, whatever the destination byte. -/
theorem pgn_fromParts (h : fromParts priority pgn destination source = .ok id) :
    id.pgn = pgn := by
  rw [Id.pgn, raw_shift_fromParts h]
  by_cases h1 : pgn.isPdu1 = true
  · rw [if_pos h1]
    exact Pgn.newMasked_add h1 destination.asU8_lt
  · rw [if_neg h1, Nat.add_zero, Pgn.newMasked_raw]

/-- **The destination survives assembly** for a PDU1 group. -/
theorem destinationAddress_fromParts (h : fromParts priority pgn destination source = .ok id)
    (h1 : pgn.isPdu1 = true) : id.destinationAddress = some destination := by
  obtain ⟨-, hraw⟩ := fromParts_eq_ok.mp h
  have hsrc := source.asU8_lt
  have hdst := destination.asU8_lt
  have hlow := Pgn.low_byte_of_pdu1 h1
  rw [destinationAddress, isPdu1_fromParts h, if_pos h1, Option.some.injEq]
  apply Address.asU8_inj
  rw [Address.asU8_ofNat, pduSpecific, Nat.shiftRight_eq_div_pow, hraw, assemble_eq, if_pos h1]
  omega

theorem pgn_broadcast (priority : Priority) (pgn : Pgn) (source : Address) :
    (broadcast priority pgn source).pgn = pgn := pgn_fromParts fromParts_global

theorem sourceAddress_broadcast (priority : Priority) (pgn : Pgn) (source : Address) :
    (broadcast priority pgn source).sourceAddress = source :=
  sourceAddress_fromParts fromParts_global

/-- **A broadcast is addressed to everybody**, whichever way its group
says so. -/
theorem isAddressedTo_broadcast (priority : Priority) (pgn : Pgn) (source address : Address) :
    (broadcast priority pgn source).isAddressedTo address = true := by
  have h : fromParts priority pgn Address.global source = .ok (broadcast priority pgn source) :=
    fromParts_global
  unfold isAddressedTo
  by_cases h1 : pgn.isPdu1 = true
  · rw [destinationAddress_fromParts h h1]
    rfl
  · rw [destinationAddress, isPdu1_fromParts h, if_neg h1]

/-! ## §4. Parts and identifiers, one to one. -/

section OneToOne

variable {priority : Priority} {pgn : Pgn} {destination source : Address}

theorem raw_lt (id : Id) : id.raw < 2 ^ 29 := Nat.lt_succ_of_le id.raw_le

theorem isPdu1_iff {id : Id} : id.isPdu1 = true ↔ id.raw / 65536 % 256 < 240 := by
  simp [isPdu1, pduFormat, Pgn.pdu2FormatMin, Nat.shiftRight_eq_div_pow]

/-- The priority bits of an identifier, as a number. -/
theorem priority_raw (id : Id) : id.priority.raw = id.raw / 2 ^ 26 := by
  have hlt := id.raw_lt
  have hseven : (0x7 : Nat) = 2 ^ 3 - 1 := rfl
  have hbits : (id.raw >>> 26) &&& 0x7 = id.raw / 2 ^ 26 := by
    rw [hseven, Nat.and_two_pow_sub_one_eq_mod, Nat.shiftRight_eq_div_pow]
    omega
  have hle : id.raw / 2 ^ 26 ≤ 7 := by omega
  rw [priority, hbits, Priority.newSaturating, dif_pos hle]

/-- The group of an identifier, as a number: the PDU specific byte belongs
to it in a PDU2 frame only. -/
theorem pgn_raw (id : Id) :
    id.pgn.raw = if id.isPdu1 then id.raw / 65536 % 1024 * 256 else id.raw / 256 % 262144 := by
  have hmax : Pgn.max = 2 ^ 18 - 1 := rfl
  have hbits : (id.raw >>> 8) &&& Pgn.max = id.raw / 256 % 262144 := by
    rw [hmax, Nat.and_two_pow_sub_one_eq_mod, Nat.shiftRight_eq_div_pow]
  have hle : id.raw / 256 % 262144 ≤ Pgn.max := by
    unfold Pgn.max
    omega
  show Pgn.normalise (((id.raw >>> 8) &&& Pgn.max) &&& Pgn.max) = _
  rw [Pgn.and_max (Pgn.and_max_le _), hbits, Pgn.normalise_eq hle]
  by_cases h1 : id.isPdu1 = true
  · have hformat := isPdu1_iff.mp h1
    rw [if_pos h1, if_pos (by omega)]
    omega
  · have hformat : ¬ id.raw / 65536 % 256 < 240 := fun h => h1 (isPdu1_iff.mpr h)
    rw [if_neg h1, if_neg (by omega)]

/-- An identifier and its group agree about what the PDU specific byte
is. -/
theorem isPdu1_pgn (id : Id) : id.pgn.isPdu1 = id.isPdu1 := by
  have hiff : id.pgn.isPdu1 = true ↔ id.isPdu1 = true := by
    rw [Pgn.isPdu1_iff, isPdu1_iff, pgn_raw]
    by_cases h1 : id.isPdu1 = true
    · have hformat := isPdu1_iff.mp h1
      rw [if_pos h1]
      omega
    · have hformat : ¬ id.raw / 65536 % 256 < 240 := fun h => h1 (isPdu1_iff.mpr h)
      rw [if_neg h1]
      omega
  exact Bool.eq_iff_iff.mpr hiff

/-- **An identifier is rebuilt from its parts.** -/
theorem fromParts_parts (id : Id) :
    fromParts id.priority id.pgn (id.destinationAddress.getD Address.global) id.sourceAddress
      = .ok id := by
  have hlt := id.raw_lt
  have hsource : id.sourceAddress.asU8 = id.raw % 256 := Address.asU8_ofNat _
  apply fromParts_eq_ok.mpr
  by_cases h1 : id.isPdu1 = true
  · -- PDU1: the PDU specific byte is the destination
    have hdestination : id.destinationAddress = some (Address.ofNat id.pduSpecific) := if_pos h1
    have hspecific : (Address.ofNat id.pduSpecific).asU8 = id.raw / 256 % 256 := by
      rw [Address.asU8_ofNat, pduSpecific, Nat.shiftRight_eq_div_pow, Nat.mod_mod]
    constructor
    · exact Or.inl ((isPdu1_pgn id).trans h1)
    · rw [assemble_eq, isPdu1_pgn, if_pos h1, hdestination, Option.getD_some, hspecific, hsource,
        priority_raw, pgn_raw, if_pos h1]
      omega
  · -- PDU2: it belongs to the group, and the destination is the global one
    have hdestination : id.destinationAddress = none := if_neg h1
    constructor
    · exact Or.inr (congrArg (Option.getD · Address.global) hdestination)
    · rw [assemble_eq, isPdu1_pgn, if_neg h1, hsource, priority_raw, pgn_raw, if_neg h1]
      omega

/-- The priority survives assembly. -/
theorem priority_fromParts {id : Id} (h : fromParts priority pgn destination source = .ok id) :
    id.priority = priority := by
  obtain ⟨-, hraw⟩ := fromParts_eq_ok.mp h
  have hsrc := source.asU8_lt
  have hps := ps_lt pgn destination
  have hpgn := pgn.raw_lt
  -- the group and the destination stay below the priority bits
  have hlow : (pgn.raw + if pgn.isPdu1 then destination.asU8 else 0) < 2 ^ 18 := by
    by_cases h1 : pgn.isPdu1 = true
    · have := Pgn.low_byte_of_pdu1 h1
      omega
    · rw [if_neg h1]
      omega
  have hpriority : id.priority.raw = priority.raw := by
    rw [priority_raw, hraw, assemble_eq]
    omega
  exact Priority.ext_raw hpriority

/-- The destination survives assembly: a PDU2 identifier names none, which
stands for the global address. -/
theorem destination_fromParts {id : Id} (h : fromParts priority pgn destination source = .ok id) :
    id.destinationAddress.getD Address.global = destination := by
  by_cases h1 : pgn.isPdu1 = true
  · rw [destinationAddress_fromParts h h1, Option.getD_some]
  · have hglobal : destination = Address.global := (fromParts_eq_ok.mp h).1.resolve_left h1
    rw [destinationAddress, isPdu1_fromParts h, if_neg h1, hglobal, Option.getD_none]

/-- **The receive filter**: a frame is for everybody, or for one ECU. -/
theorem isAddressedTo_iff {id : Id} {address : Address} :
    id.isAddressedTo address = true ↔
      id.isPdu1 = false ∨ id.destinationAddress = some Address.global
        ∨ id.destinationAddress = some address := by
  unfold isAddressedTo
  cases h1 : id.isPdu1 with
  | false =>
    have hnone : id.destinationAddress = none := by
      rw [destinationAddress, h1]
      rfl
    simp [hnone]
  | true =>
    have hsome : id.destinationAddress = some (Address.ofNat id.pduSpecific) := by
      rw [destinationAddress, h1]
      rfl
    rw [hsome]
    simp [Address.isBroadcast_iff]

/-- **Parts and identifiers correspond one to one.**  Every identifier is
rebuilt from its parts; parts are refused exactly if a PDU2 group is to go
to one ECU, and otherwise they are what the identifier is made of; and the
receive filter lets through what is for everybody or for the ECU. -/
theorem parts_one_to_one :
    (∀ id : Id, fromParts id.priority id.pgn (id.destinationAddress.getD Address.global)
        id.sourceAddress = .ok id)
      ∧ (∀ (priority : Priority) (pgn : Pgn) (destination source : Address),
          if pgn.isPdu2 = true ∧ destination ≠ Address.global then
            fromParts priority pgn destination source = .error .destinationMismatch
          else ∃ id, fromParts priority pgn destination source = .ok id
            ∧ id.priority = priority ∧ id.pgn = pgn
            ∧ id.destinationAddress.getD Address.global = destination
            ∧ id.sourceAddress = source)
      ∧ (∀ (id : Id) (address : Address), id.isAddressedTo address = true ↔
          id.isPdu1 = false ∨ id.destinationAddress = some Address.global
            ∨ id.destinationAddress = some address) := by
  refine ⟨fromParts_parts, ?_, fun _ _ => isAddressedTo_iff⟩
  intro priority pgn destination source
  split
  next hrefused =>
    have hcond : (pgn.isPdu2 && !destination.isBroadcast) = true := by
      simpa [Address.isBroadcast, bne_iff_ne] using hrefused
    exact if_pos hcond
  next hok =>
    have hcond : ¬ (pgn.isPdu2 && !destination.isBroadcast) = true := by
      simpa [Address.isBroadcast, bne_iff_ne] using hok
    have hparts : fromParts priority pgn destination source
        = .ok ⟨assemble priority pgn destination source, assemble_le ..⟩ := if_neg hcond
    exact ⟨_, hparts, priority_fromParts hparts, pgn_fromParts hparts,
      destination_fromParts hparts, sourceAddress_fromParts hparts⟩

end OneToOne

end Id

end SaeJ1939
