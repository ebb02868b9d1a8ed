/-
  SaeJ1939.Iso11783.Valve — hydraulic valves (`valve.rs`).

  There are sixteen auxiliary valves, and each has a group of its own in
  three blocks of sixteen.  Their messages and those of the general purpose
  valve pack a state of four bits and a mode of two into one byte.

  Main results:
    * `ValveNumber.groups_of_valves` — a valve and its three groups, one to
      one, and which of them look manufacturer-specific.
    * `valve_messages_carried` — what each of the five messages carries.
-/
import SaeJ1939.Lib.WireFormat
import SaeJ1939.Core.Proprietary
import SaeJ1939.Node.Node

namespace SaeJ1939.Iso11783

open WireFormat

/-! ## §1. States and modes. -/

/-- What a hydraulic valve is doing, or being told to do. -/
inductive ValveState where
  | neutral
  | extend
  | retract
  | floating
  | initialisation
  | error
  /-- A state outside the set that is defined. -/
  | other (raw : UInt8)
  deriving Repr, DecidableEq

namespace ValveState

/-- The four-bit wire value. -/
def asU8 : ValveState → UInt8
  | neutral => 0x0
  | extend => 0x1
  | retract => 0x2
  | floating => 0x3
  | initialisation => 0xA
  | error => 0xE
  | other raw => raw &&& 0x0F

def fromU8 (raw : UInt8) : ValveState :=
  match (raw &&& 0x0F).toNat with
  | 0x0 => neutral
  | 0x1 => extend
  | 0x2 => retract
  | 0x3 => floating
  | 0xA => initialisation
  | 0xE => error
  | _ => other (raw &&& 0x0F)

/-- Whether this state moves the cylinder. -/
def isMoving : ValveState → Bool
  | extend | retract => true
  | _ => false

/-- Whether the wire tells this state from the others. -/
def isOnWire : ValveState → Bool
  | other raw => decide (raw ≤ 0x0F) && !([0x0, 0x1, 0x2, 0x3, 0xA, (0xE : UInt8)].contains raw)
  | _ => true

end ValveState

/-- What a valve does when communication is lost. -/
inductive FailSafeMode where
  /-- Hold the position. -/
  | blocked
  /-- Return to neutral. -/
  | activated
  /-- A mode outside the set that is defined. -/
  | other (raw : UInt8)
  deriving Repr, DecidableEq

namespace FailSafeMode

/-- The two-bit wire value. -/
def asU8 : FailSafeMode → UInt8
  | blocked => 0
  | activated => 1
  | other raw => raw &&& 0b11

def fromU8 (raw : UInt8) : FailSafeMode :=
  match (raw &&& 0b11).toNat with
  | 0 => blocked
  | 1 => activated
  | _ => other (raw &&& 0b11)

/-- Whether the wire tells this mode from the others. -/
def isOnWire : FailSafeMode → Bool
  | other raw => raw == 2 || raw == 3
  | _ => true

end FailSafeMode

namespace ValveState

theorem fromU8_of_low {raw raw' : UInt8} (h : raw &&& 0x0F = raw' &&& 0x0F) :
    fromU8 raw = fromU8 raw' := by
  unfold fromU8
  rw [h]

theorem isOnWire_fromU8 (raw : UInt8) : (fromU8 raw).isOnWire = true := by
  have hlow := low_four raw
  unfold fromU8
  generalize raw &&& 0x0F = low at hlow
  simp only [List.mem_cons, List.not_mem_nil, or_false] at hlow
  rcases hlow with rfl | rfl | rfl | rfl | rfl | rfl | rfl | rfl | rfl | rfl | rfl | rfl | rfl
    | rfl | rfl | rfl <;> rfl

/-- A state takes up no more than its four bits. -/
theorem asU8_low (state : ValveState) : state.asU8 &&& 0x0F = state.asU8 := by
  cases state with
  | other raw =>
    show (raw &&& 0x0F) &&& 0x0F = raw &&& 0x0F
    rw [UInt8.and_assoc]
    rfl
  | neutral | extend | retract | floating | initialisation | error => rfl

/-- **A state survives exactly if the wire tells it from the others.** -/
theorem fromU8_asU8_iff (state : ValveState) :
    fromU8 state.asU8 = state ↔ state.isOnWire = true := by
  constructor
  · intro h
    rw [← h]
    exact isOnWire_fromU8 state.asU8
  · intro h
    cases state with
    | other raw =>
      simp only [isOnWire, Bool.and_eq_true, decide_eq_true_eq] at h
      have hraw : raw &&& 0x0F = raw := (and_ones8_iff (k := 4) (by decide) raw).mpr h.1
      have hlow := low_four raw
      rw [hraw] at hlow
      obtain ⟨-, hother⟩ := h
      simp only [List.mem_cons, List.not_mem_nil, or_false] at hlow
      rcases hlow with rfl | rfl | rfl | rfl | rfl | rfl | rfl | rfl | rfl | rfl | rfl | rfl | rfl
        | rfl | rfl | rfl <;> first | rfl | cases hother
    | neutral | extend | retract | floating | initialisation | error => rfl

end ValveState

namespace FailSafeMode

theorem fromU8_of_low {raw raw' : UInt8} (h : raw &&& 0b11 = raw' &&& 0b11) :
    fromU8 raw = fromU8 raw' := by
  unfold fromU8
  rw [h]

theorem isOnWire_fromU8 (raw : UInt8) : (fromU8 raw).isOnWire = true := by
  have hlow := low_two raw
  unfold fromU8
  generalize raw &&& 0b11 = low at hlow
  simp only [List.mem_cons, List.not_mem_nil, or_false] at hlow
  rcases hlow with rfl | rfl | rfl | rfl <;> rfl

/-- **A mode survives exactly if the wire tells it from the others.** -/
theorem fromU8_asU8_iff (mode : FailSafeMode) :
    fromU8 mode.asU8 = mode ↔ mode.isOnWire = true := by
  constructor
  · intro h
    rw [← h]
    exact isOnWire_fromU8 mode.asU8
  · intro h
    cases mode with
    | other raw =>
      simp only [isOnWire, Bool.or_eq_true, beq_iff_eq] at h
      rcases h with rfl | rfl <;> rfl
    | blocked | activated => rfl

end FailSafeMode

/-! ## §2. Valves and their groups. -/

/-- The highest number of an auxiliary valve. -/
def maxValveNumber : UInt8 := 15

/-- The first command group. -/
def auxValveCommandBase : Nat := 0x00FE30

/-- The first estimated flow group. -/
def auxValveEstimatedFlowBase : Nat := 0x00FE10

/-- The first measured position group.  The block lies inside the range of
Proprietary B. -/
def auxValveMeasuredPositionBase : Nat := 0x00FF20

/-- One of the sixteen auxiliary valves. -/
structure ValveNumber where
  raw : UInt8
  raw_le : raw ≤ maxValveNumber
  deriving DecidableEq

/-- Valve messages are control traffic. -/
def valvePriority : Priority := .control

namespace ValveNumber

/-- The valve with this number. -/
def new (number : UInt8) : Result ValveNumber :=
  if h : number > maxValveNumber then .error (.valueOutOfRange "valve number" number.toNat)
  else .ok ⟨number, UInt8.not_lt.mp h⟩

/-- The group that carries commands to this valve. -/
def commandPgn (valve : ValveNumber) : Pgn := Pgn.newMasked (auxValveCommandBase + valve.raw.toNat)

def estimatedFlowPgn (valve : ValveNumber) : Pgn :=
  Pgn.newMasked (auxValveEstimatedFlowBase + valve.raw.toNat)

def measuredPositionPgn (valve : ValveNumber) : Pgn :=
  Pgn.newMasked (auxValveMeasuredPositionBase + valve.raw.toNat)

theorem low_le (n : Nat) (h : n ≤ maxValveNumber.toNat) : UInt8.ofNat n ≤ maxValveNumber := by
  rw [UInt8.le_iff_toNat_le, UInt8.toNat_ofNat']
  exact (Nat.mod_le _ _).trans h

/-- Which valve of the block at `base` a group is about, if it is in it. -/
def fromBlock (pgn : Pgn) (base : Nat) : Option ValveNumber :=
  if h : pgn.raw ≥ base ∧ pgn.raw ≤ base + maxValveNumber.toNat then
    some ⟨UInt8.ofNat (pgn.raw - base), low_le _ (Nat.sub_le_iff_le_add'.mpr h.2)⟩
  else none

def fromCommandPgn (pgn : Pgn) : Option ValveNumber := fromBlock pgn auxValveCommandBase

def fromEstimatedFlowPgn (pgn : Pgn) : Option ValveNumber := fromBlock pgn auxValveEstimatedFlowBase

def fromMeasuredPositionPgn (pgn : Pgn) : Option ValveNumber :=
  fromBlock pgn auxValveMeasuredPositionBase

theorem ext_raw {v v' : ValveNumber} (h : v.raw = v'.raw) : v = v' := by
  cases v
  cases v'
  cases h
  rfl

theorem raw_toNat_le (valve : ValveNumber) : valve.raw.toNat ≤ 15 :=
  UInt8.le_iff_toNat_le.mp valve.raw_le

/-- **A valve and its group in a block are one to one.** -/
theorem fromBlock_eq_some {base : Nat} (hpdu2 : 240 ≤ base / 256 % 256) (hend : base % 256 ≤ 240)
    (hbase : base ≤ 0x0FFFF) {p : Pgn} {valve : ValveNumber} :
    fromBlock p base = some valve ↔ Pgn.newMasked (base + valve.raw.toNat) = p := by
  have hvalve := valve.raw_toNat_le
  have hmax : maxValveNumber.toNat = 15 := rfl
  rw [Pgn.newMasked_eq_iff (by unfold Pgn.max; omega) (by omega)]
  unfold fromBlock
  constructor
  · intro h
    split at h
    next hin =>
      obtain rfl := Option.some.inj h
      show _ = base + (UInt8.ofNat (p.raw - base)).toNat
      rw [UInt8.toNat_ofNat']
      omega
    next => cases h
  · intro h
    rw [dif_pos (by omega)]
    refine congrArg some (ext_raw ?_)
    show UInt8.ofNat (p.raw - base) = valve.raw
    rw [h, Nat.add_sub_cancel_left, UInt8.ofNat_toNat]

theorem fromCommandPgn_eq_some {p : Pgn} {valve : ValveNumber} :
    fromCommandPgn p = some valve ↔ valve.commandPgn = p :=
  fromBlock_eq_some (by decide) (by decide) (by decide)

theorem fromEstimatedFlowPgn_eq_some {p : Pgn} {valve : ValveNumber} :
    fromEstimatedFlowPgn p = some valve ↔ valve.estimatedFlowPgn = p :=
  fromBlock_eq_some (by decide) (by decide) (by decide)

theorem fromMeasuredPositionPgn_eq_some {p : Pgn} {valve : ValveNumber} :
    fromMeasuredPositionPgn p = some valve ↔ valve.measuredPositionPgn = p :=
  fromBlock_eq_some (by decide) (by decide) (by decide)

/-- The number in a group of a block. -/
theorem raw_of_block {base : Nat} (hpdu2 : 240 ≤ base / 256 % 256) (hend : base % 256 ≤ 240)
    (hbase : base ≤ 0x0FFFF) (valve : ValveNumber) :
    (Pgn.newMasked (base + valve.raw.toNat)).raw = base + valve.raw.toNat := by
  have hvalve := valve.raw_toNat_le
  exact Pgn.raw_newMasked (by unfold Pgn.max; omega) (by omega)

/-- The identifier of a message about a valve. -/
def broadcastId (pgn : Pgn) (source : Address) : Id := Id.broadcast valvePriority pgn source

/-- The groups of the measured position block are manufacturer-specific by
their numbers. -/
theorem fromPgn_measuredPosition (valve : ValveNumber) :
    ProprietaryB.fromPgn valve.measuredPositionPgn
      = some (ProprietaryB.new (0x20 + valve.raw)) := by
  have hvalve := valve.raw_toNat_le
  have hraw : valve.measuredPositionPgn.raw = auxValveMeasuredPositionBase + valve.raw.toNat :=
    raw_of_block (by decide) (by decide) (by decide) valve
  rw [ProprietaryB.fromPgn_eq_some]
  apply Pgn.ext_raw
  rw [ProprietaryB.pgn_raw]
  refine Eq.trans ?_ hraw.symm
  show 0x0FF00 + (0x20 + valve.raw).toNat = 0x0FF20 + valve.raw.toNat
  rw [UInt8.toNat_add]
  show 0x0FF00 + (32 + valve.raw.toNat) % 256 = _
  omega

/-- No group below the range is manufacturer-specific. -/
theorem fromPgn_of_lt {p : Pgn} (h : p.raw < 0x0FF00) : ProprietaryB.fromPgn p = none := by
  obtain ⟨hstart, -, hstart2, -⟩ := ProprietaryB.bounds
  unfold ProprietaryB.fromPgn
  rw [if_neg (by omega), if_neg (by omega)]

/-- **Valves and their groups.**  In each of the three blocks a valve and
its group are one to one, no group is in two blocks, and only the measured
positions look manufacturer-specific: they are the groups of Proprietary B on
page 0 with an extension of `0x20` to `0x2F`. -/
theorem groups_of_valves :
    (∀ p valve, (fromCommandPgn p = some valve ↔ valve.commandPgn = p)
      ∧ (fromEstimatedFlowPgn p = some valve ↔ valve.estimatedFlowPgn = p)
      ∧ (fromMeasuredPositionPgn p = some valve ↔ valve.measuredPositionPgn = p))
    ∧ (∀ v v' : ValveNumber, v.commandPgn ≠ v'.estimatedFlowPgn
      ∧ v.commandPgn ≠ v'.measuredPositionPgn ∧ v.estimatedFlowPgn ≠ v'.measuredPositionPgn)
    ∧ (∀ valve : ValveNumber, isProprietary valve.commandPgn = false
      ∧ isProprietary valve.estimatedFlowPgn = false
      ∧ isProprietary valve.measuredPositionPgn = true)
    ∧ ∀ group : ProprietaryB, (∃ valve, fromMeasuredPositionPgn group.pgn = some valve)
      ↔ group.dataPage = false ∧ 0x20 ≤ group.groupExtension ∧ group.groupExtension ≤ 0x2F := by
  have hcommand : ∀ v : ValveNumber, v.commandPgn.raw = 0x0FE30 + v.raw.toNat :=
    raw_of_block (by decide) (by decide) (by decide)
  have hflow : ∀ v : ValveNumber, v.estimatedFlowPgn.raw = 0x0FE10 + v.raw.toNat :=
    raw_of_block (by decide) (by decide) (by decide)
  have hposition : ∀ v : ValveNumber, v.measuredPositionPgn.raw = 0x0FF20 + v.raw.toNat :=
    raw_of_block (by decide) (by decide) (by decide)
  have hA : Pgn.proprietaryA.raw = 0x0EF00 := by decide
  refine ⟨fun p valve => ?_, fun v v' => ?_, fun valve => ?_, fun group => ?_⟩
  · exact ⟨fromCommandPgn_eq_some, fromEstimatedFlowPgn_eq_some, fromMeasuredPositionPgn_eq_some⟩
  · have hv := v.raw_toNat_le
    have hv' := v'.raw_toNat_le
    have := hcommand v
    have := hflow v
    have := hflow v'
    have := hposition v'
    refine ⟨fun h => ?_, fun h => ?_, fun h => ?_⟩ <;>
      · have hraw := congrArg Pgn.raw h
        omega
  · have hvalve := valve.raw_toNat_le
    have hstandard : ∀ p : Pgn, p.raw < 0x0FF00 → p.raw ≠ 0x0EF00 → isProprietary p = false := by
      intro p hp hne
      unfold isProprietary
      rw [fromPgn_of_lt hp, hA, beq_eq_false_iff_ne.mpr hne]
      rfl
    refine ⟨hstandard _ ?_ ?_, hstandard _ ?_ ?_, ?_⟩
    · rw [hcommand]
      omega
    · rw [hcommand]
      omega
    · rw [hflow]
      omega
    · rw [hflow]
      omega
    · exact isProprietary_iff.mpr (.inr ⟨_, ProprietaryB.fromPgn_eq_some.mp
        (fromPgn_measuredPosition valve)⟩)
  · constructor
    · rintro ⟨valve, h⟩
      have hvalve := valve.raw_le
      -- the valve names its group, and so does the extension
      have hsame := fromPgn_measuredPosition valve
      rw [fromMeasuredPositionPgn_eq_some.mp h, ProprietaryB.fromPgn_eq_some.mpr rfl] at hsame
      obtain rfl := Option.some.inj hsame
      refine ⟨rfl, ?_⟩
      show (0x20 : UInt8) ≤ 0x20 + valve.raw ∧ 0x20 + valve.raw ≤ (0x2F : UInt8)
      have hle := valve.raw_toNat_le
      rw [UInt8.le_iff_toNat_le, UInt8.le_iff_toNat_le, UInt8.toNat_add]
      show 32 ≤ (32 + valve.raw.toNat) % 256 ∧ (32 + valve.raw.toNat) % 256 ≤ 47
      omega
    · rintro ⟨hpage, hlow, hhigh⟩
      obtain ⟨extension, page⟩ := group
      obtain rfl : page = false := hpage
      have hlow : 32 ≤ extension.toNat := UInt8.le_iff_toNat_le.mp hlow
      have hhigh : extension.toNat ≤ 47 := UInt8.le_iff_toNat_le.mp hhigh
      have hle : UInt8.ofNat (extension.toNat - 32) ≤ maxValveNumber := low_le _ (by
        show _ ≤ 15
        omega)
      refine ⟨⟨_, hle⟩, fromMeasuredPositionPgn_eq_some.mpr (Pgn.ext_raw ?_)⟩
      rw [hposition, ProprietaryB.pgn_raw]
      show 0x0FF20 + (UInt8.ofNat (extension.toNat - 32)).toNat = 0x0FF00 + extension.toNat
      rw [UInt8.toNat_ofNat']
      omega

end ValveNumber

/-! ## §3. The byte of state and mode. -/

/-- What stands for no limit. -/
def limitNotUsed : UInt8 := 0x7

/-- A mode of two bits, two reserved bits and a state of four. -/
def packModeAndState (failSafeMode : FailSafeMode) (valveState : ValveState) : UInt8 :=
  (failSafeMode.asU8 <<< (6 : UInt8)) ||| ((0b11 : UInt8) <<< (4 : UInt8)) ||| valveState.asU8

theorem pack_state (mode : FailSafeMode) (state : ValveState) :
    ValveState.fromU8 (packModeAndState mode state) = .fromU8 state.asU8 := by
  apply ValveState.fromU8_of_low
  unfold packModeAndState
  generalize mode.asU8 = m
  generalize state.asU8 = s
  apply UInt8.toBitVec_inj.mp
  apply BitVec.eq_of_getLsbD_eq
  intro i hi
  interval_cases i <;> simp

theorem pack_mode (mode : FailSafeMode) (state : ValveState) :
    FailSafeMode.fromU8 (packModeAndState mode state >>> 6) = .fromU8 mode.asU8 := by
  apply FailSafeMode.fromU8_of_low
  unfold packModeAndState
  rw [← state.asU8_low]
  generalize mode.asU8 = m
  generalize state.asU8 = s
  apply UInt8.toBitVec_inj.mp
  apply BitVec.eq_of_getLsbD_eq
  intro i hi
  interval_cases i <;> simp

/-- A measured position leaves the mode out. -/
theorem reserved_state (state : ValveState) :
    ValveState.fromU8 ((0xF0 : UInt8) ||| state.asU8) = .fromU8 state.asU8 := by
  apply ValveState.fromU8_of_low
  generalize state.asU8 = s
  apply UInt8.toBitVec_inj.mp
  apply BitVec.eq_of_getLsbD_eq
  intro i hi
  interval_cases i <;> simp

theorem shift_limit (limit : UInt8) : ((limit &&& 0b111) <<< 5) >>> 5 = limit &&& 0b111 := by
  apply UInt8.toBitVec_inj.mp
  apply BitVec.eq_of_getLsbD_eq
  intro i hi
  interval_cases i <;> simp

theorem limit_le (raw : UInt8) : raw >>> 5 ≤ limitNotUsed := by
  have hlt := raw.toNat_lt
  rw [UInt8.le_iff_toNat_le, UInt8.toNat_shiftRight]
  show raw.toNat >>> 5 ≤ 7
  rw [Nat.shiftRight_eq_div_pow]
  omega

theorem and_limit_iff (limit : UInt8) : limit &&& 0b111 = limit ↔ limit ≤ limitNotUsed :=
  and_ones8_iff (k := 3) (by decide) limit

/-! ## §4. The five messages. -/

/-- A command to one auxiliary valve. -/
structure AuxiliaryValveCommand where
  standardFlow : UInt8
  valveState : ValveState
  failSafeMode : FailSafeMode
  deriving Repr, DecidableEq

namespace AuxiliaryValveCommand

def encode (m : AuxiliaryValveCommand) : Payload := ![m.standardFlow, fill,
  packModeAndState m.failSafeMode m.valveState, fill, fill, fill, fill, fill]

def decode (data : Payload) : AuxiliaryValveCommand where
  standardFlow := data 0
  valveState := .fromU8 (data 2)
  failSafeMode := .fromU8 (data 2 >>> 6)

def InRange (m : AuxiliaryValveCommand) : Prop :=
  m.valveState.isOnWire = true ∧ m.failSafeMode.isOnWire = true

/-- What is left of a command that is sent. -/
theorem decode_encode (m : AuxiliaryValveCommand) : decode m.encode = { m with
    valveState := .fromU8 m.valveState.asU8
    failSafeMode := .fromU8 m.failSafeMode.asU8 } :=
  congrArg₂ (AuxiliaryValveCommand.mk m.standardFlow) (pack_state m.failSafeMode m.valveState)
    (pack_mode m.failSafeMode m.valveState)

theorem carries : Carries ⟨encode, decode⟩ InRange := by
  refine Carries.of_read decode_encode (fun m => ?_) fun data => ?_
  · obtain ⟨flow, state, mode⟩ := m
    simp only [AuxiliaryValveCommand.mk.injEq, true_and]
    exact and_congr state.fromU8_asU8_iff mode.fromU8_asU8_iff
  · exact ⟨ValveState.isOnWire_fromU8 _, FailSafeMode.isOnWire_fromU8 _⟩

end AuxiliaryValveCommand

/-- The estimated flow of an auxiliary valve. -/
structure AuxiliaryValveEstimatedFlow where
  extendFlow : UInt8
  retractFlow : UInt8
  valveState : ValveState
  failSafeMode : FailSafeMode
  /-- Which limit the valve is up against. -/
  limit : UInt8
  deriving Repr, DecidableEq

namespace AuxiliaryValveEstimatedFlow

def default : AuxiliaryValveEstimatedFlow := ⟨0, 0, .neutral, .blocked, limitNotUsed⟩

def encode (m : AuxiliaryValveEstimatedFlow) : Payload := ![m.extendFlow, m.retractFlow,
  packModeAndState m.failSafeMode m.valveState, (m.limit &&& 0b111) <<< 5, fill, fill, fill, fill]

def decode (data : Payload) : AuxiliaryValveEstimatedFlow where
  extendFlow := data 0
  retractFlow := data 1
  valveState := .fromU8 (data 2)
  failSafeMode := .fromU8 (data 2 >>> 6)
  limit := data 3 >>> 5

def InRange (m : AuxiliaryValveEstimatedFlow) : Prop :=
  m.valveState.isOnWire = true ∧ m.failSafeMode.isOnWire = true ∧ m.limit ≤ limitNotUsed

/-- What is left of a report that is sent. -/
theorem decode_encode (m : AuxiliaryValveEstimatedFlow) : decode m.encode = { m with
    valveState := .fromU8 m.valveState.asU8
    failSafeMode := .fromU8 m.failSafeMode.asU8
    limit := m.limit &&& 0b111 } := by
  show AuxiliaryValveEstimatedFlow.mk m.extendFlow m.retractFlow _ _ _ = _
  rw [← pack_state m.failSafeMode m.valveState, ← pack_mode m.failSafeMode m.valveState,
    ← shift_limit m.limit]
  rfl

theorem carries : Carries ⟨encode, decode⟩ InRange := by
  refine Carries.of_read decode_encode (fun m => ?_) fun data => ?_
  · obtain ⟨extend, retract, state, mode, limit⟩ := m
    simp only [AuxiliaryValveEstimatedFlow.mk.injEq, true_and]
    exact and_congr state.fromU8_asU8_iff (and_congr mode.fromU8_asU8_iff (and_limit_iff limit))
  · exact ⟨ValveState.isOnWire_fromU8 _, FailSafeMode.isOnWire_fromU8 _, limit_le _⟩

end AuxiliaryValveEstimatedFlow

/-- The measured position of an auxiliary valve. -/
structure AuxiliaryValveMeasuredPosition where
  positionPercent : UInt16
  positionMicrometres : UInt16
  valveState : ValveState
  deriving Repr, DecidableEq

namespace AuxiliaryValveMeasuredPosition

def encode (m : AuxiliaryValveMeasuredPosition) : Payload := ![m.positionPercent.toUInt8,
  (m.positionPercent >>> 8).toUInt8, (0xF0 : UInt8) ||| m.valveState.asU8,
  m.positionMicrometres.toUInt8, (m.positionMicrometres >>> 8).toUInt8, fill, fill, fill]

def decode (data : Payload) : AuxiliaryValveMeasuredPosition where
  positionPercent := ofLe16 (data 0) (data 1)
  positionMicrometres := ofLe16 (data 3) (data 4)
  valveState := .fromU8 (data 2)

def InRange (m : AuxiliaryValveMeasuredPosition) : Prop := m.valveState.isOnWire = true

/-- What is left of a report that is sent. -/
theorem decode_encode (m : AuxiliaryValveMeasuredPosition) : decode m.encode = { m with
    valveState := .fromU8 m.valveState.asU8 } := by
  show AuxiliaryValveMeasuredPosition.mk
    (ofLe16 m.positionPercent.toUInt8 (m.positionPercent >>> 8).toUInt8)
    (ofLe16 m.positionMicrometres.toUInt8 (m.positionMicrometres >>> 8).toUInt8) _ = _
  rw [ofLe16_bytes, ofLe16_bytes, ← reserved_state]
  rfl

theorem carries : Carries ⟨encode, decode⟩ InRange := by
  refine Carries.of_read decode_encode (fun m => ?_) fun data => ?_
  · obtain ⟨percent, micrometres, state⟩ := m
    simp only [AuxiliaryValveMeasuredPosition.mk.injEq, true_and]
    exact state.fromU8_asU8_iff
  · exact ValveState.isOnWire_fromU8 _

end AuxiliaryValveMeasuredPosition

/-- A command to the general purpose valve. -/
structure GeneralPurposeValveCommand where
  standardFlow : UInt8
  extendedFlow : UInt16
  valveState : ValveState
  failSafeMode : FailSafeMode
  deriving Repr, DecidableEq

namespace GeneralPurposeValveCommand

def encode (m : GeneralPurposeValveCommand) : Payload := ![m.standardFlow, fill,
  packModeAndState m.failSafeMode m.valveState, m.extendedFlow.toUInt8,
  (m.extendedFlow >>> 8).toUInt8, fill, fill, fill]

def decode (data : Payload) : GeneralPurposeValveCommand where
  standardFlow := data 0
  extendedFlow := ofLe16 (data 3) (data 4)
  valveState := .fromU8 (data 2)
  failSafeMode := .fromU8 (data 2 >>> 6)

def InRange (m : GeneralPurposeValveCommand) : Prop :=
  m.valveState.isOnWire = true ∧ m.failSafeMode.isOnWire = true

/-- What is left of a command that is sent. -/
theorem decode_encode (m : GeneralPurposeValveCommand) : decode m.encode = { m with
    valveState := .fromU8 m.valveState.asU8
    failSafeMode := .fromU8 m.failSafeMode.asU8 } := by
  show GeneralPurposeValveCommand.mk m.standardFlow
    (ofLe16 m.extendedFlow.toUInt8 (m.extendedFlow >>> 8).toUInt8) _ _ = _
  rw [ofLe16_bytes, ← pack_state m.failSafeMode m.valveState,
    ← pack_mode m.failSafeMode m.valveState]
  rfl

theorem carries : Carries ⟨encode, decode⟩ InRange := by
  refine Carries.of_read decode_encode (fun m => ?_) fun data => ?_
  · obtain ⟨flow, extended, state, mode⟩ := m
    simp only [GeneralPurposeValveCommand.mk.injEq, true_and]
    exact and_congr state.fromU8_asU8_iff mode.fromU8_asU8_iff
  · exact ⟨ValveState.isOnWire_fromU8 _, FailSafeMode.isOnWire_fromU8 _⟩

end GeneralPurposeValveCommand

/-- The estimated flow of the general purpose valve. -/
structure GeneralPurposeValveEstimatedFlow where
  extendFlow : UInt8
  retractFlow : UInt8
  extendFlowExtended : UInt16
  retractFlowExtended : UInt16
  valveState : ValveState
  failSafeMode : FailSafeMode
  limit : UInt8
  deriving Repr, DecidableEq

namespace GeneralPurposeValveEstimatedFlow

def default : GeneralPurposeValveEstimatedFlow :=
  ⟨0, 0, 0, 0, .neutral, .blocked, limitNotUsed⟩

def encode (m : GeneralPurposeValveEstimatedFlow) : Payload := ![m.extendFlow, m.retractFlow,
  packModeAndState m.failSafeMode m.valveState, (m.limit &&& 0b111) <<< 5,
  m.extendFlowExtended.toUInt8, (m.extendFlowExtended >>> 8).toUInt8,
  m.retractFlowExtended.toUInt8, (m.retractFlowExtended >>> 8).toUInt8]

def decode (data : Payload) : GeneralPurposeValveEstimatedFlow where
  extendFlow := data 0
  retractFlow := data 1
  extendFlowExtended := ofLe16 (data 4) (data 5)
  retractFlowExtended := ofLe16 (data 6) (data 7)
  valveState := .fromU8 (data 2)
  failSafeMode := .fromU8 (data 2 >>> 6)
  limit := data 3 >>> 5

def InRange (m : GeneralPurposeValveEstimatedFlow) : Prop :=
  m.valveState.isOnWire = true ∧ m.failSafeMode.isOnWire = true ∧ m.limit ≤ limitNotUsed

/-- What is left of a report that is sent. -/
theorem decode_encode (m : GeneralPurposeValveEstimatedFlow) : decode m.encode = { m with
    valveState := .fromU8 m.valveState.asU8
    failSafeMode := .fromU8 m.failSafeMode.asU8
    limit := m.limit &&& 0b111 } := by
  show GeneralPurposeValveEstimatedFlow.mk m.extendFlow m.retractFlow
    (ofLe16 m.extendFlowExtended.toUInt8 (m.extendFlowExtended >>> 8).toUInt8)
    (ofLe16 m.retractFlowExtended.toUInt8 (m.retractFlowExtended >>> 8).toUInt8) _ _ _ = _
  rw [ofLe16_bytes, ofLe16_bytes, ← pack_state m.failSafeMode m.valveState,
    ← pack_mode m.failSafeMode m.valveState, ← shift_limit m.limit]
  rfl

theorem carries : Carries ⟨encode, decode⟩ InRange := by
  refine Carries.of_read decode_encode (fun m => ?_) fun data => ?_
  · obtain ⟨extend, retract, extended, extended', state, mode, limit⟩ := m
    simp only [GeneralPurposeValveEstimatedFlow.mk.injEq, true_and]
    exact and_congr state.fromU8_asU8_iff (and_congr mode.fromU8_asU8_iff (and_limit_iff limit))
  · exact ⟨ValveState.isOnWire_fromU8 _, FailSafeMode.isOnWire_fromU8 _, limit_le _⟩

end GeneralPurposeValveEstimatedFlow

/-! ## §5. On the bus. -/

/-- A frame about a valve reaches every application as it is. -/
theorem onFrame_about_valve {BUF SESSIONS : Nat} (n : Node BUF SESSIONS) {group : Pgn}
    (hgroup : group ∉ [Pgn.addressClaimed, .request, .tpCm, .tpDt]) (source : Address)
    (payload : Payload) :
    n.onFrame (Frame.fromPayload (ValveNumber.broadcastId group source) payload)
      = .ok (.message group source [payload 0, payload 1, payload 2, payload 3, payload 4,
          payload 5, payload 6, payload 7] none, n) := by
  simp only [List.mem_cons, List.not_mem_nil, not_or, or_false] at hgroup
  obtain ⟨hclaimed, hrequest, hcm, hdt⟩ := hgroup
  have hpgn : (ValveNumber.broadcastId group source).pgn = group := Id.pgn_broadcast ..
  have hroute : n.route (Frame.fromPayload (ValveNumber.broadcastId group source) payload)
      = .application := by
    have hnoRequest : ∀ answer : Prop, ¬ (group = .request ∧ answer) :=
      fun _ h => hrequest h.1
    have haddressed : (ValveNumber.broadcastId group source).isAddressedTo n.claimer.address
        = true := Id.isAddressedTo_broadcast ..
    unfold Node.route
    rw [Frame.id_fromPayload, hpgn, haddressed, if_neg (by decide), if_neg hclaimed,
      if_neg (hnoRequest _), if_neg hcm, if_neg hdt]
  rw [Node.onFrame_eq, hroute]
  dsimp only
  rw [Frame.data_fromPayload, Frame.pgn, Frame.sourceAddress, Frame.id_fromPayload, hpgn]
  unfold ValveNumber.broadcastId
  rw [Id.sourceAddress_broadcast]

/-- **What the messages of valves carry.**  Each of the five carries exactly
the values in range.  A command that is broadcast leaves every node as it is
and reaches its application, for the valve it was meant for and no other,
and means the same there exactly if it is in range. -/
theorem valve_messages_carried :
    Carries ⟨AuxiliaryValveCommand.encode, AuxiliaryValveCommand.decode⟩
      AuxiliaryValveCommand.InRange
    ∧ Carries ⟨AuxiliaryValveEstimatedFlow.encode, AuxiliaryValveEstimatedFlow.decode⟩
      AuxiliaryValveEstimatedFlow.InRange
    ∧ Carries ⟨AuxiliaryValveMeasuredPosition.encode, AuxiliaryValveMeasuredPosition.decode⟩
      AuxiliaryValveMeasuredPosition.InRange
    ∧ Carries ⟨GeneralPurposeValveCommand.encode, GeneralPurposeValveCommand.decode⟩
      GeneralPurposeValveCommand.InRange
    ∧ Carries ⟨GeneralPurposeValveEstimatedFlow.encode, GeneralPurposeValveEstimatedFlow.decode⟩
      GeneralPurposeValveEstimatedFlow.InRange
    ∧ ∀ (BUF SESSIONS : Nat) (n : Node BUF SESSIONS) (valve : ValveNumber) (source : Address)
        (command : AuxiliaryValveCommand), ∃ group payload,
      n.onFrame (Frame.fromPayload (ValveNumber.broadcastId valve.commandPgn source)
          command.encode) = .ok (.message group source [payload 0, payload 1, payload 2,
            payload 3, payload 4, payload 5, payload 6, payload 7] none, n)
        ∧ (∀ valve', ValveNumber.fromCommandPgn group = some valve' ↔ valve' = valve)
        ∧ (AuxiliaryValveCommand.decode payload = command ↔ command.InRange) := by
  refine ⟨AuxiliaryValveCommand.carries, AuxiliaryValveEstimatedFlow.carries,
    AuxiliaryValveMeasuredPosition.carries, GeneralPurposeValveCommand.carries,
    GeneralPurposeValveEstimatedFlow.carries, ?_⟩
  intro BUF SESSIONS n valve source command
  have hraw : valve.commandPgn.raw = 0x0FE30 + valve.raw.toNat :=
    ValveNumber.raw_of_block (by decide) (by decide) (by decide) valve
  have hgroup : valve.commandPgn ∉ [Pgn.addressClaimed, .request, .tpCm, .tpDt] := by
    -- none of the four is that high
    have hlow : ∀ p ∈ [Pgn.addressClaimed, .request, .tpCm, .tpDt], p.raw < 0x0FE30 := by decide
    intro h
    have := hlow _ h
    omega
  refine ⟨_, _, onFrame_about_valve n hgroup source command.encode, fun valve' => ?_,
    AuxiliaryValveCommand.carries.survives_iff command⟩
  have hsame : ValveNumber.fromCommandPgn valve.commandPgn = some valve :=
    ValveNumber.fromCommandPgn_eq_some.mpr rfl
  rw [hsame]
  constructor
  · exact fun h => (Option.some.inj h).symm
  · exact fun h => congrArg some h.symm

end SaeJ1939.Iso11783
