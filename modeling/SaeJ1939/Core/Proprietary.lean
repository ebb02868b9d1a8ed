/-
  SaeJ1939.Core.Proprietary — manufacturer-specific parameter groups
  (`proprietary.rs`).

  Proprietary A is one group, addressed to one ECU.  Proprietary B is a
  range of groups for everybody, with a mirror of it on data page 1.  A
  `ProprietaryB` names a group of the range and no other.

  Main results:
    * `ProprietaryB.fromPgn_eq_some` — the groups of the range and their
      names, one to one.
    * `proprietary_addressing` — what the two kinds of identifier say, and
      that a group is proprietary exactly if one of them can name it.
-/
import SaeJ1939.Core.Id

namespace SaeJ1939

namespace Pgn

/-! ## §1. Groups that are for everybody. -/

/-- A group for everybody has no free byte. -/
theorem raw_newMasked {raw : Nat} (hle : raw ≤ max) (hpdu2 : 240 ≤ raw / 256 % 256) :
    (newMasked raw).raw = raw := by
  show normalise (raw &&& max) = raw
  rw [and_max hle, normalise_eq hle, if_neg (Nat.not_lt.mpr hpdu2)]

theorem newMasked_eq_iff {raw : Nat} (hle : raw ≤ max) (hpdu2 : 240 ≤ raw / 256 % 256) {p : Pgn} :
    newMasked raw = p ↔ p.raw = raw := by
  constructor
  · intro h
    rw [← h, raw_newMasked hle hpdu2]
  · intro h
    exact ext_raw ((raw_newMasked hle hpdu2).trans h.symm)

end Pgn

/-! ## §2. Proprietary B. -/

/-- A manufacturer-specific group that is for everybody. -/
structure ProprietaryB where
  groupExtension : UInt8
  /-- On the mirror range of data page 1. -/
  dataPage : Bool
  deriving Repr, DecidableEq

namespace ProprietaryB

/-- The group with this extension, on data page 0. -/
def new (groupExtension : UInt8) : ProprietaryB := ⟨groupExtension, false⟩

def onDataPage1 (groupExtension : UInt8) : ProprietaryB := ⟨groupExtension, true⟩

/-- Recognise a group of the range, on either data page. -/
def fromPgn (pgn : Pgn) : Option ProprietaryB :=
  if pgn.raw ≥ Pgn.proprietaryBStart.raw ∧ pgn.raw ≤ Pgn.proprietaryBEnd.raw then
    some (new (UInt8.ofNat pgn.raw))
  else if pgn.raw ≥ Pgn.proprietaryB2Start.raw ∧ pgn.raw ≤ Pgn.proprietaryB2End.raw then
    some (onDataPage1 (UInt8.ofNat pgn.raw))
  else none

/-- The first group of its range. -/
def base (group : ProprietaryB) : Nat :=
  if group.dataPage then Pgn.proprietaryB2Start.raw else Pgn.proprietaryBStart.raw

def pgn (group : ProprietaryB) : Pgn := Pgn.newMasked (group.base ||| group.groupExtension.toNat)

/-- The bounds of the two ranges. -/
theorem bounds : Pgn.proprietaryBStart.raw = 0x0FF00 ∧ Pgn.proprietaryBEnd.raw = 0x0FFFF
    ∧ Pgn.proprietaryB2Start.raw = 0x1FF00 ∧ Pgn.proprietaryB2End.raw = 0x1FFFF := by decide

theorem base_eq (group : ProprietaryB) : group.base = 0x0FF00 ∨ group.base = 0x1FF00 := by
  obtain ⟨hstart, -, hstart2, -⟩ := bounds
  unfold base
  rw [hstart, hstart2]
  cases group.dataPage with
  | false => exact .inl rfl
  | true => exact .inr rfl

/-- The extension takes the low byte of the range. -/
theorem base_or (group : ProprietaryB) :
    group.base ||| group.groupExtension.toNat = group.base + group.groupExtension.toNat := by
  rcases group.base_eq with h | h
  · rw [h]
    exact (Nat.two_pow_add_eq_or_of_lt group.groupExtension.toNat_lt 0xFF).symm
  · rw [h]
    exact (Nat.two_pow_add_eq_or_of_lt group.groupExtension.toNat_lt 0x1FF).symm

theorem pgn_raw (group : ProprietaryB) :
    group.pgn.raw = group.base + group.groupExtension.toNat := by
  have hlt := group.groupExtension.toNat_lt
  have hbase := group.base_eq
  unfold pgn
  rw [base_or]
  apply Pgn.raw_newMasked
  · unfold Pgn.max
    omega
  · omega

/-- **The groups of the range and their names are one to one.** -/
theorem fromPgn_eq_some {p : Pgn} {group : ProprietaryB} :
    fromPgn p = some group ↔ group.pgn = p := by
  obtain ⟨hstart, hend, hstart2, hend2⟩ := bounds
  have hlt := group.groupExtension.toNat_lt
  constructor
  · intro h
    apply Pgn.ext_raw
    rw [pgn_raw]
    unfold fromPgn at h
    split at h
    next hpage =>
      obtain rfl := Option.some.inj h
      show Pgn.proprietaryBStart.raw + (UInt8.ofNat p.raw).toNat = p.raw
      rw [UInt8.toNat_ofNat']
      omega
    next =>
      split at h
      next hpage =>
        obtain rfl := Option.some.inj h
        show Pgn.proprietaryB2Start.raw + (UInt8.ofNat p.raw).toNat = p.raw
        rw [UInt8.toNat_ofNat']
        omega
      next => cases h
  · rintro rfl
    obtain ⟨extension, page⟩ := group
    have hraw : _ = _ + extension.toNat := pgn_raw ⟨extension, page⟩
    have hbase := base_eq ⟨extension, page⟩
    have hlt : extension.toNat < 2 ^ 8 := hlt
    have hlow : UInt8.ofNat (ProprietaryB.mk extension page).pgn.raw = extension := by
      apply UInt8.toNat_inj.mp
      rw [UInt8.toNat_ofNat', hraw]
      omega
    unfold fromPgn
    rw [hlow]
    cases page with
    | false =>
      have hbase : (ProprietaryB.mk extension false).base = Pgn.proprietaryBStart.raw := rfl
      rw [if_pos (by omega)]
      rfl
    | true =>
      have hbase : (ProprietaryB.mk extension true).base = Pgn.proprietaryB2Start.raw := rfl
      rw [if_neg (by omega), if_pos (by omega)]
      rfl

/-- The two tests for the range agree. -/
theorem isSome_fromPgn (p : Pgn) : (fromPgn p).isSome = p.isProprietaryB := by
  unfold fromPgn Pgn.isProprietaryB
  by_cases hpage : p.raw ≥ Pgn.proprietaryBStart.raw ∧ p.raw ≤ Pgn.proprietaryBEnd.raw
  · rw [if_pos hpage, decide_eq_true hpage.1, decide_eq_true hpage.2]
    rfl
  · rw [if_neg hpage, ← Bool.decide_and, decide_eq_false hpage, Bool.false_or, ← Bool.decide_and]
    split
    next hmirror => exact (decide_eq_true hmirror).symm
    next hmirror => exact (decide_eq_false hmirror).symm

/-- Every group of the range is for everybody. -/
theorem isPdu1_pgn (group : ProprietaryB) : group.pgn.isPdu1 = false := by
  have hlt := group.groupExtension.toNat_lt
  have hraw := group.pgn_raw
  have hbase := group.base_eq
  rw [Bool.eq_false_iff]
  intro hpdu1
  rw [Pgn.isPdu1_iff] at hpdu1
  omega

end ProprietaryB

/-! ## §3. Identifiers. -/

/-- The identifier of a message for one ECU. -/
def addressedId (priority : Priority) (destination source : Address) : Result Id :=
  Id.fromParts priority .proprietaryA destination source

/-- The identifier of a message for everybody. -/
def broadcastId (priority : Priority) (group : ProprietaryB) (source : Address) : Id :=
  Id.broadcast priority group.pgn source

/-- Whether a group is manufacturer-specific, of either kind. -/
def isProprietary (pgn : Pgn) : Bool :=
  pgn.raw == Pgn.proprietaryA.raw || (ProprietaryB.fromPgn pgn).isSome

theorem isProprietary_iff {pgn : Pgn} :
    isProprietary pgn = true ↔ pgn = .proprietaryA ∨ ∃ group : ProprietaryB, group.pgn = pgn := by
  unfold isProprietary
  rw [Bool.or_eq_true, beq_iff_eq, Option.isSome_iff_exists]
  refine or_congr ⟨Pgn.ext_raw, congrArg Pgn.raw⟩ (exists_congr fun group => ?_)
  exact ProprietaryB.fromPgn_eq_some

/-- **How proprietary messages are addressed.**  An identifier of the first
kind can always be built and names its one ECU; one of the second kind is
heard by every ECU and gives back its group.  A group is proprietary exactly
if an identifier of one of the two kinds names it. -/
theorem proprietary_addressing :
    (∀ priority destination source, ∃ id, addressedId priority destination source = .ok id
      ∧ id.pgn = .proprietaryA ∧ id.destinationAddress = some destination
      ∧ id.sourceAddress = source ∧ id.priority = priority)
    ∧ (∀ priority group source, ProprietaryB.fromPgn (broadcastId priority group source).pgn
        = some group
      ∧ (broadcastId priority group source).sourceAddress = source
      ∧ (broadcastId priority group source).destinationAddress = none
      ∧ ∀ address, (broadcastId priority group source).isAddressedTo address = true)
    ∧ ∀ pgn, isProprietary pgn = true ↔ ∃ id : Id, id.pgn = pgn
      ∧ ((∃ priority destination source, addressedId priority destination source = .ok id)
        ∨ ∃ priority group source, broadcastId priority group source = id) := by
  have hpdu1 : Pgn.proprietaryA.isPdu1 = true := by decide
  have haddressed : ∀ priority destination source, ∃ id,
      addressedId priority destination source = .ok id ∧ id.pgn = .proprietaryA := by
    intro priority destination source
    obtain ⟨id, hid⟩ := Id.exists_fromParts priority destination source hpdu1
    exact ⟨id, hid, Id.pgn_fromParts hid⟩
  refine ⟨?_, ?_, fun pgn => ?_⟩
  · intro priority destination source
    obtain ⟨id, hid, hpgn⟩ := haddressed priority destination source
    exact ⟨id, hid, hpgn, Id.destinationAddress_fromParts hid hpdu1,
      Id.sourceAddress_fromParts hid, Id.priority_fromParts hid⟩
  · intro priority group source
    refine ⟨ProprietaryB.fromPgn_eq_some.mpr (Id.pgn_broadcast ..).symm,
      Id.sourceAddress_broadcast .., ?_, fun address => Id.isAddressedTo_broadcast ..⟩
    unfold broadcastId Id.destinationAddress
    rw [Id.isPdu1_fromParts Id.fromParts_global, group.isPdu1_pgn]
    rfl
  · rw [isProprietary_iff]
    constructor
    · rintro (rfl | ⟨group, rfl⟩)
      · obtain ⟨id, hid, hpgn⟩ := haddressed .default .global .null
        exact ⟨id, hpgn, .inl ⟨_, _, _, hid⟩⟩
      · exact ⟨broadcastId .default group .null, Id.pgn_broadcast .., .inr ⟨_, _, _, rfl⟩⟩
    · rintro ⟨id, rfl, ⟨priority, destination, source, hid⟩ | ⟨priority, group, source, rfl⟩⟩
      · exact .inl (Id.pgn_fromParts hid)
      · exact .inr ⟨group, (Id.pgn_broadcast ..).symm⟩

end SaeJ1939
