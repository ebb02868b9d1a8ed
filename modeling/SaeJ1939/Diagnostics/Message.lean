/-
  SaeJ1939.Diagnostics.Message — lamps, trouble codes and the messages
  that carry them (`diagnostics.rs`).

  A DM1 or DM2 payload is two lamp bytes followed by four-byte trouble
  codes, padded to eight bytes when it holds at most one code.

  Main results:
    * `Lamps.statusOf_withStatus` — setting a lamp sets that lamp only.
    * `Dtc.decode_encode` — a trouble code in range survives its encoding.
    * `encode_ok` — what an encoded message looks like.
    * `parse_payload` — what was encoded is what is parsed.
    * `lists_round_trip` — the round trip of a list, in any buffer.
-/
import SaeJ1939.Core.Bytes

namespace SaeJ1939.Diagnostics

/-! ## §1. Lamps. -/

/-- Bytes each trouble code occupies. -/
def dtcLen : Nat := 4

/-- Bytes of lamp status preceding the trouble codes. -/
def lampLen : Nat := 2

/-- The largest Suspect Parameter Number (19 bits). -/
def maxSpn : Nat := 0x0007FFFF

/-- The largest Failure Mode Identifier (5 bits). -/
def maxFmi : UInt8 := 0x1F

/-- The largest occurrence count (7 bits). -/
def maxOccurrenceCount : UInt8 := 0x7F

/-- The four lamps a diagnostic message reports on. -/
inductive Lamp where
  | malfunctionIndicator
  | redStop
  | amberWarning
  | protect
  deriving Repr, DecidableEq

namespace Lamp

/-- Every lamp, in the order they are packed into the status byte. -/
def all : List Lamp := [malfunctionIndicator, redStop, amberWarning, protect]

/-- How far a lamp's two-bit field is shifted within its byte. -/
def shift : Lamp → UInt8
  | malfunctionIndicator => 6
  | redStop => 4
  | amberWarning => 2
  | protect => 0

end Lamp

/-- The state of one lamp: a two-bit field. -/
inductive LampStatus where
  | off
  | on
  | reserved
  | notAvailable
  deriving Repr, DecidableEq

namespace LampStatus

def fromBits (bits : UInt8) : LampStatus :=
  match (bits &&& 0b11).toNat with
  | 0 => off
  | 1 => on
  | 2 => reserved
  | _ => notAvailable

def toBits : LampStatus → UInt8
  | off => 0
  | on => 1
  | reserved => 2
  | notAvailable => 3

theorem fromBits_toBits (s : LampStatus) : fromBits s.toBits = s := by
  cases s <;> rfl

end LampStatus

def setField (byte shift bits : UInt8) : UInt8 :=
  (byte &&& ~~~(0b11 <<< shift)) ||| ((bits &&& 0b11) <<< shift)

/-- The lamp status and lamp flash status bytes. -/
structure Lamps where
  status : UInt8
  flash : UInt8
  deriving Repr, DecidableEq

namespace Lamps

/-- All lamps off. -/
def new : Lamps := ⟨0, 0⟩

/-- The status of one lamp. -/
def statusOf (l : Lamps) (lamp : Lamp) : LampStatus := .fromBits (l.status >>> lamp.shift)

/-- The flash status of one lamp. -/
def flashStatus (l : Lamps) (lamp : Lamp) : LampStatus := .fromBits (l.flash >>> lamp.shift)

def withStatus (l : Lamps) (lamp : Lamp) (status : LampStatus) : Lamps :=
  { l with status := setField l.status lamp.shift status.toBits }

def withFlashStatus (l : Lamps) (lamp : Lamp) (status : LampStatus) : Lamps :=
  { l with flash := setField l.flash lamp.shift status.toBits }

/-- Whether any lamp is on. -/
def anyOn (l : Lamps) : Bool := Lamp.all.any fun lamp => l.statusOf lamp == .on

def encode (l : Lamps) : List UInt8 := [l.status, l.flash]

def decode (status flash : UInt8) : Lamps := ⟨status, flash⟩

/-- Two bits moved to the field of one lamp are in that field only. -/
theorem shift_bits {bits : UInt8} (h : bits.toNat < 4) (lamp lamp' : Lamp) :
    ((bits <<< lamp.shift) >>> lamp'.shift) &&& 0b11 = if lamp' = lamp then bits else 0 := by
  have hall : ∀ n < 4, ((UInt8.ofNat n <<< lamp.shift) >>> lamp'.shift) &&& 0b11
      = if lamp' = lamp then UInt8.ofNat n else 0 := by
    cases lamp <;> cases lamp' <;> decide
  simpa only [UInt8.ofNat_toNat] using hall bits.toNat h

/-- Clearing the field of one lamp leaves the others as they are. -/
theorem shift_mask (byte : UInt8) (lamp lamp' : Lamp) :
    ((byte &&& ~~~(0b11 <<< lamp.shift)) >>> lamp'.shift) &&& 0b11
      = if lamp' = lamp then 0 else (byte >>> lamp'.shift) &&& 0b11 := by
  have hmask : (~~~(0b11 <<< lamp.shift) >>> lamp'.shift) &&& 0b11
      = if lamp' = lamp then 0 else 0b11 := by
    cases lamp <;> cases lamp' <;> decide
  rw [UInt8.shiftRight_and, UInt8.and_assoc, hmask]
  split
  next => exact UInt8.and_zero
  next => rfl

/-- Reading a two-bit field after one has been written: the fields of two
lamps do not overlap. -/
theorem setField_shift (byte bits : UInt8) (lamp lamp' : Lamp) :
    (setField byte lamp.shift bits >>> lamp'.shift) &&& 0b11
      = if lamp' = lamp then bits &&& 0b11 else (byte >>> lamp'.shift) &&& 0b11 := by
  have hlt : (bits &&& 0b11).toNat < 4 := by
    rw [UInt8.toNat_and]
    exact lt_of_le_of_lt Nat.and_le_right (by decide)
  rw [setField, UInt8.shiftRight_or, byte_or_and, shift_mask, shift_bits hlt]
  split
  next => exact UInt8.zero_or
  next => exact UInt8.or_zero

/-- **Setting a lamp sets that lamp only.** -/
theorem statusOf_withStatus (l : Lamps) (lamp lamp' : Lamp) (s : LampStatus) :
    (l.withStatus lamp s).statusOf lamp' = if lamp' = lamp then s else l.statusOf lamp' := by
  have hread : ∀ x : UInt8, LampStatus.fromBits (x &&& 0b11) = LampStatus.fromBits x := by
    intro x
    simp only [LampStatus.fromBits, UInt8.and_assoc, UInt8.and_self]
  unfold statusOf withStatus
  rw [← hread, setField_shift]
  split
  next => rw [hread, LampStatus.fromBits_toBits]
  next => rw [hread]

end Lamps

/-! ## §2. Trouble codes. -/

/-- A Diagnostic Trouble Code: what failed, how, and how often. -/
structure Dtc where
  spn : Nat
  fmi : UInt8
  occurrenceCount : UInt8
  conversionMethod : Bool
  deriving Repr, DecidableEq

namespace Dtc

/-- The all-zero code. -/
def default : Dtc := ⟨0, 0, 0, false⟩

def new (spn : Nat) (fmi occurrenceCount : UInt8) : Result Dtc :=
  if spn > maxSpn ∨ fmi > maxFmi ∨ occurrenceCount > maxOccurrenceCount then .error .invalidDtc
  else .ok ⟨spn, fmi, occurrenceCount, true⟩

/-- Whether this is a placeholder rather than a real fault. -/
def isNoFault (d : Dtc) : Bool :=
  (d.spn == 0 && d.fmi == 0) || (d.spn == maxSpn && d.fmi == maxFmi)

/-- `conversion_method as u8`. -/
def conversionBit (c : Bool) : UInt8 := if c then 1 else 0

def encode (d : Dtc) : List UInt8 :=
  [UInt8.ofNat d.spn,
    UInt8.ofNat (d.spn >>> 8),
    (UInt8.ofNat (d.spn >>> 11) &&& 0xE0) ||| (d.fmi &&& maxFmi),
    (conversionBit d.conversionMethod <<< 7) ||| (d.occurrenceCount &&& maxOccurrenceCount)]

def decode (b₀ b₁ b₂ b₃ : UInt8) : Dtc where
  spn := ((b₂ &&& 0xE0).toNat <<< 11) ||| (b₁.toNat <<< 8) ||| b₀.toNat
  fmi := b₂ &&& maxFmi
  occurrenceCount := b₃ &&& maxOccurrenceCount
  conversionMethod := b₃ >>> 7 == 1

/-- The fields fit the bits they are encoded in. -/
def InRange (d : Dtc) : Prop :=
  d.spn ≤ maxSpn ∧ d.fmi ≤ maxFmi ∧ d.occurrenceCount ≤ maxOccurrenceCount

instance (d : Dtc) : Decidable d.InRange := inferInstanceAs (Decidable (_ ∧ _ ∧ _))

@[simp] theorem length_encode (d : Dtc) : d.encode.length = dtcLen := rfl

/-- A byte below a mask of low bits is unchanged by it. -/
theorem and_mask {b m : UInt8} {k : Nat} (hm : m.toNat = 2 ^ k - 1) (h : b ≤ m) : b &&& m = b := by
  have hle : b.toNat ≤ 2 ^ k - 1 := hm ▸ UInt8.le_iff_toNat_le.mp h
  have hpos : 0 < 2 ^ k := Nat.two_pow_pos k
  apply UInt8.toNat_inj.mp
  rw [UInt8.toNat_and, hm, Nat.and_two_pow_sub_one_eq_mod]
  exact Nat.mod_eq_of_lt (by omega)

/-- The byte shared by the two numbers gives the high one back. -/
theorem shared_high (x y : UInt8) : ((x &&& 0xE0) ||| (y &&& 0x1F)) &&& 0xE0 = x &&& 0xE0 := by
  have hmask : (0x1F : UInt8) &&& 0xE0 = 0 := rfl
  rw [byte_or_and, UInt8.and_assoc, UInt8.and_assoc, UInt8.and_self, hmask, UInt8.and_zero,
    UInt8.or_zero]

/-- The byte shared by the two numbers gives the low one back. -/
theorem shared_low (x y : UInt8) : ((x &&& 0xE0) ||| (y &&& 0x1F)) &&& 0x1F = y &&& 0x1F := by
  have hmask : (0xE0 : UInt8) &&& 0x1F = 0 := rfl
  rw [byte_or_and, UInt8.and_assoc, UInt8.and_assoc, UInt8.and_self, hmask, UInt8.and_zero,
    UInt8.zero_or]

theorem toNat_and_high (x : UInt8) : (x &&& 0xE0).toNat = x.toNat / 32 * 32 := by
  have hall : ∀ n < 256, n &&& 0xE0 = n / 32 * 32 := by decide +kernel
  exact hall _ x.toNat_lt

/-- The three bytes of a Suspect Parameter Number. -/
theorem spn_bytes {spn : Nat} (h : spn ≤ maxSpn) :
    ((UInt8.ofNat (spn >>> 11) &&& 0xE0).toNat <<< 11) ||| ((UInt8.ofNat (spn >>> 8)).toNat <<< 8)
      ||| (UInt8.ofNat spn).toNat = spn := by
  unfold maxSpn at h
  rw [toNat_and_high, UInt8.toNat_ofNat', UInt8.toNat_ofNat', UInt8.toNat_ofNat',
    Nat.shiftRight_eq_div_pow, Nat.shiftRight_eq_div_pow]
  -- the middle byte and the low byte do not overlap, nor do they reach the high bits
  have hlow : ((spn / 2 ^ 8 % 2 ^ 8) <<< 8) ||| (spn % 2 ^ 8) = spn % 2 ^ 16 := by
    rw [← Nat.shiftLeft_add_eq_or_of_lt (Nat.mod_lt _ (by decide)), Nat.shiftLeft_eq]
    omega
  have hhigh : (spn / 2 ^ 11 % 2 ^ 8 / 32 * 32) <<< 11 = (spn / 2 ^ 16) <<< 16 := by
    rw [Nat.shiftLeft_eq, Nat.shiftLeft_eq]
    omega
  rw [Nat.or_assoc, hlow, hhigh, ← Nat.shiftLeft_add_eq_or_of_lt (Nat.mod_lt _ (by decide)),
    Nat.shiftLeft_eq]
  omega

theorem count_byte (c : Bool) (n : UInt8) :
    ((conversionBit c <<< 7) ||| (n &&& 0x7F)) &&& 0x7F = n &&& 0x7F
      ∧ (((conversionBit c <<< 7) ||| (n &&& 0x7F)) >>> 7 == 1) = c := by
  have hshift : (n &&& 0x7F) >>> 7 = 0 := by
    have hmask : (0x7F : UInt8) >>> 7 = 0 := rfl
    rw [UInt8.shiftRight_and, hmask, UInt8.and_zero]
  constructor
  · have hmask : (conversionBit c <<< 7) &&& 0x7F = 0 := by
      cases c <;> rfl
    rw [byte_or_and, UInt8.and_assoc, UInt8.and_self, hmask, UInt8.zero_or]
  · rw [UInt8.shiftRight_or, hshift]
    cases c <;> rfl

/-- **A trouble code in range survives its encoding.** -/
theorem decode_encode {d : Dtc} (h : d.InRange) :
    ∃ b₀ b₁ b₂ b₃, d.encode = [b₀, b₁, b₂, b₃] ∧ decode b₀ b₁ b₂ b₃ = d := by
  refine ⟨_, _, _, _, rfl, ?_⟩
  obtain ⟨hspn, hfmi, hcount⟩ := h
  obtain ⟨hlow, hhigh⟩ := count_byte d.conversionMethod d.occurrenceCount
  unfold decode
  unfold maxFmi at hfmi ⊢
  unfold maxOccurrenceCount at hcount ⊢
  rw [shared_high, shared_low, spn_bytes hspn, and_mask (k := 5) rfl hfmi, hlow, hhigh,
    and_mask (k := 7) rfl hcount]

end Dtc

/-! ## §3. Messages. -/

/-- Decode whole trouble codes; a remainder of fewer than four bytes is
ignored (`chunks_exact`). -/
def decodeAll : List UInt8 → List Dtc
  | b₀ :: b₁ :: b₂ :: b₃ :: rest => Dtc.decode b₀ b₁ b₂ b₃ :: decodeAll rest
  | _ => []

/-- A parsed DM1 or DM2 message. -/
structure Message where
  lamps : Lamps
  dtcBytes : List UInt8
  deriving Repr, DecidableEq

namespace Message

def parse (data : List UInt8) : Result Message :=
  match data with
  | status :: flash :: rest => .ok ⟨Lamps.decode status flash, rest⟩
  | _ => .error (.shortPayload lampLen data.length)

def dtcs (m : Message) : List Dtc := decodeAll m.dtcBytes

/-- No trouble codes, or the single placeholder. -/
def isFaultFree (m : Message) : Bool :=
  match m.dtcs with
  | [] => true
  | first :: rest => first.isNoFault && rest.isEmpty

end Message

/-- `out[start..start + bytes.len()].copy_from_slice(bytes)`, for a range
inside `out`. -/
def copyInto (out : List UInt8) (start : Nat) (bytes : List UInt8) : List UInt8 :=
  out.take start ++ bytes ++ out.drop (start + bytes.length)

/-- Encode a DM1 or DM2 message into `out`. -/
def encode (lamps : Lamps) (dtcs : List Dtc) (out : List UInt8) : Result Nat × List UInt8 :=
  let body := lampLen + dtcs.length * dtcLen
  let len := if dtcs.length ≤ 1 then max body 8 else body
  if out.length < len then (.error (.shortPayload len out.length), out)
  else
    let out := copyInto out 0 lamps.encode
    let out := dtcs.zipIdx.foldl
      (fun out p => copyInto out (lampLen + p.2 * dtcLen) p.1.encode) out
    -- reserved trailing bytes
    let out := copyInto out body (List.replicate (len - body) 0xFF)
    (.ok len, out)

/-- The length of a message with `codes` trouble codes. -/
def encodedLen (codes : Nat) : Nat :=
  if codes ≤ 1 then max (lampLen + codes * dtcLen) 8 else lampLen + codes * dtcLen

/-- The bytes of a message. -/
def payload (lamps : Lamps) (dtcs : List Dtc) : List UInt8 :=
  lamps.encode ++ dtcs.flatMap Dtc.encode
    ++ List.replicate (encodedLen dtcs.length - (lampLen + dtcs.length * dtcLen)) 0xFF

/-! ## §4. What was encoded is what is parsed. -/

theorem copyInto_append {pre rest bytes : List UInt8} {start : Nat} (h : pre.length = start) :
    copyInto (pre ++ rest) start bytes = pre ++ bytes ++ rest.drop bytes.length := by
  subst h
  rw [copyInto, List.take_left, ← List.drop_drop, List.drop_left]

/-- Copying code after code lines them up behind what is already there. -/
theorem copyInto_codes (dtcs : List Dtc) (k : Nat) (pre rest : List UInt8)
    (hpre : pre.length = lampLen + k * dtcLen) :
    (dtcs.zipIdx k).foldl (fun out p => copyInto out (lampLen + p.2 * dtcLen) p.1.encode)
        (pre ++ rest)
      = pre ++ dtcs.flatMap Dtc.encode ++ rest.drop (dtcs.length * dtcLen) := by
  induction dtcs generalizing k pre rest with
  | nil => simp
  | cons d ds ih =>
    have hnext : (pre ++ d.encode).length = lampLen + (k + 1) * dtcLen := by
      rw [List.length_append, Dtc.length_encode, hpre, Nat.succ_mul]
      omega
    rw [List.zipIdx_cons, List.foldl_cons, copyInto_append hpre, ih (k + 1) _ _ hnext,
      List.flatMap_cons, List.drop_drop, Dtc.length_encode, List.length_cons, Nat.succ_mul,
      Nat.add_comm dtcLen]
    simp only [List.append_assoc]

theorem length_codes (dtcs : List Dtc) :
    (dtcs.flatMap Dtc.encode).length = dtcs.length * dtcLen := by
  induction dtcs with
  | nil => rfl
  | cons d ds ih =>
    rw [List.flatMap_cons, List.length_append, ih, Dtc.length_encode, List.length_cons,
      Nat.succ_mul, Nat.add_comm]

theorem body_le_encodedLen (codes : Nat) : lampLen + codes * dtcLen ≤ encodedLen codes := by
  unfold encodedLen
  split
  · exact Nat.le_max_left _ _
  · exact le_rfl

theorem length_payload (lamps : Lamps) (dtcs : List Dtc) :
    (payload lamps dtcs).length = encodedLen dtcs.length := by
  have hbody := body_le_encodedLen dtcs.length
  have hlamps : lamps.encode.length = lampLen := rfl
  rw [payload, List.length_append, List.length_append, hlamps, length_codes,
    List.length_replicate]
  omega

/-- **What an encoded message looks like**: the lamps, the codes in
order, the padding, and what the buffer held beyond. -/
theorem encode_ok (lamps : Lamps) (dtcs : List Dtc) {out : List UInt8}
    (h : encodedLen dtcs.length ≤ out.length) :
    encode lamps dtcs out
      = (.ok (encodedLen dtcs.length),
          payload lamps dtcs ++ out.drop (encodedLen dtcs.length)) := by
  have hbody := body_le_encodedLen dtcs.length
  have hlen : (if dtcs.length ≤ 1 then max (lampLen + dtcs.length * dtcLen) 8
      else lampLen + dtcs.length * dtcLen) = encodedLen dtcs.length := rfl
  have hlamps : lamps.encode.length = lampLen := rfl
  have hcodes : (lamps.encode ++ dtcs.flatMap Dtc.encode).length
      = lampLen + dtcs.length * dtcLen := by
    rw [List.length_append, hlamps, length_codes]
  unfold encode
  simp only [hlen]
  rw [if_neg (by omega)]
  have hfirst : copyInto out 0 lamps.encode = lamps.encode ++ out.drop lampLen := by
    rw [copyInto, List.take_zero, List.nil_append, Nat.zero_add, hlamps]
  rw [hfirst, copyInto_codes dtcs 0 _ _ (by rw [hlamps]; omega), List.drop_drop,
    copyInto_append hcodes, List.length_replicate, List.drop_drop, payload,
    Nat.add_sub_cancel' hbody]

theorem encode_short (lamps : Lamps) (dtcs : List Dtc) {out : List UInt8}
    (h : out.length < encodedLen dtcs.length) :
    encode lamps dtcs out
      = (.error (.shortPayload (encodedLen dtcs.length) out.length), out) :=
  if_pos h

theorem decodeAll_codes {dtcs : List Dtc} {rest : List UInt8}
    (hrange : ∀ d ∈ dtcs, d.InRange) (hrest : rest.length < dtcLen) :
    decodeAll (dtcs.flatMap Dtc.encode ++ rest) = dtcs := by
  induction dtcs with
  | nil =>
    -- fewer than four bytes are no code
    match rest, hrest with
    | [], _ => rfl
    | [_], _ => rfl
    | [_, _], _ => rfl
    | [_, _, _], _ => rfl
    | _ :: _ :: _ :: _ :: _, h => exact absurd h (by simp [dtcLen])
  | cons d ds ih =>
    obtain ⟨b₀, b₁, b₂, b₃, hencode, hdecode⟩ := Dtc.decode_encode (hrange d List.mem_cons_self)
    rw [List.flatMap_cons, hencode]
    show Dtc.decode b₀ b₁ b₂ b₃ :: decodeAll (ds.flatMap Dtc.encode ++ rest) = d :: ds
    rw [hdecode, ih fun d' hd' => hrange d' (List.mem_cons_of_mem _ hd')]

/-- **What was encoded is what is parsed**, as soon as there is a code. -/
theorem parse_payload (lamps : Lamps) {dtcs : List Dtc} (hne : dtcs ≠ [])
    (hrange : ∀ d ∈ dtcs, d.InRange) :
    ∃ m, Message.parse (payload lamps dtcs) = .ok m ∧ m.lamps = lamps ∧ m.dtcs = dtcs := by
  refine ⟨_, rfl, rfl, ?_⟩
  refine decodeAll_codes hrange ?_
  have hpos : 0 < dtcs.length := List.length_pos_iff.mpr hne
  rw [List.length_replicate, encodedLen, dtcLen, lampLen]
  split <;> omega

/-- A message without a code is padded to one that says so. -/
theorem parse_payload_nil (lamps : Lamps) :
    ∃ m, Message.parse (payload lamps []) = .ok m ∧ m.lamps = lamps ∧ m.isFaultFree = true :=
  ⟨_, rfl, rfl, rfl⟩

theorem encodedLen_eq (codes : Nat) : encodedLen codes = max 8 (2 + 4 * codes) := by
  unfold encodedLen lampLen dtcLen
  split <;> omega

/-- **Lists of trouble codes round-trip.**  A list takes `max 8 (2 + 4 n)`
bytes; a buffer with that much room gets them and keeps the rest, and they
are parsed as the same lamps and the same codes, or as fault free; a
shorter buffer is refused and left alone. -/
theorem lists_round_trip (lamps : Lamps) {dtcs : List Dtc} (hrange : ∀ d ∈ dtcs, d.InRange)
    (out : List UInt8) :
    if out.length < max 8 (2 + 4 * dtcs.length) then
      encode lamps dtcs out
        = (.error (.shortPayload (max 8 (2 + 4 * dtcs.length)) out.length), out)
    else ∃ out' m,
      encode lamps dtcs out = (.ok (max 8 (2 + 4 * dtcs.length)), out')
        ∧ out'.length = out.length
        ∧ out'.drop (max 8 (2 + 4 * dtcs.length)) = out.drop (max 8 (2 + 4 * dtcs.length))
        ∧ Message.parse (out'.take (max 8 (2 + 4 * dtcs.length))) = .ok m
        ∧ m.lamps = lamps
        ∧ (dtcs = [] → m.isFaultFree = true)
        ∧ (dtcs ≠ [] → m.dtcs = dtcs) := by
  rw [← encodedLen_eq]
  have hlength := length_payload lamps dtcs
  split
  next hshort => exact encode_short lamps dtcs hshort
  next hroom =>
    have hfits : encodedLen dtcs.length ≤ out.length := Nat.le_of_not_lt hroom
    have htake : (payload lamps dtcs ++ out.drop (encodedLen dtcs.length)).take
        (encodedLen dtcs.length) = payload lamps dtcs := List.take_left' hlength
    have hdrop : (payload lamps dtcs ++ out.drop (encodedLen dtcs.length)).drop
        (encodedLen dtcs.length) = out.drop (encodedLen dtcs.length) := List.drop_left' hlength
    have hkept : (payload lamps dtcs ++ out.drop (encodedLen dtcs.length)).length
        = out.length := by
      rw [List.length_append, hlength, List.length_drop]
      omega
    -- what is parsed depends on whether there is a code
    cases hdtcs : dtcs with
    | nil =>
      obtain ⟨m, hparse, hlamps, hfree⟩ := parse_payload_nil lamps
      subst hdtcs
      exact ⟨_, m, encode_ok lamps [] hfits, hkept, hdrop, htake.symm ▸ hparse, hlamps,
        fun _ => hfree, fun h => absurd rfl h⟩
    | cons d ds =>
      have hne : dtcs ≠ [] := hdtcs ▸ List.cons_ne_nil d ds
      obtain ⟨m, hparse, hlamps, hcodes⟩ := parse_payload lamps hne hrange
      rw [← hdtcs]
      exact ⟨_, m, encode_ok lamps dtcs hfits, hkept, hdrop, htake.symm ▸ hparse, hlamps,
        fun h => absurd h hne, fun _ => hcodes⟩

/-- Two codes in a buffer with room to spare. -/
theorem lists_round_trip_two :
    let dtcs : List Dtc := [⟨maxSpn, 31, 127, true⟩, ⟨100, 1, 7, false⟩]
    (∀ d ∈ dtcs, d.InRange) ∧
      if (List.replicate 12 (0 : UInt8)).length < max 8 (2 + 4 * dtcs.length) then
        encode Lamps.new dtcs (List.replicate 12 0)
          = (.error (.shortPayload (max 8 (2 + 4 * dtcs.length)) 12), List.replicate 12 0)
      else ∃ out' m,
        encode Lamps.new dtcs (List.replicate 12 0)
            = (.ok (max 8 (2 + 4 * dtcs.length)), out')
          ∧ out'.length = 12
          ∧ out'.drop (max 8 (2 + 4 * dtcs.length))
              = (List.replicate 12 0).drop (max 8 (2 + 4 * dtcs.length))
          ∧ Message.parse (out'.take (max 8 (2 + 4 * dtcs.length))) = .ok m
          ∧ m.lamps = Lamps.new
          ∧ (dtcs = [] → m.isFaultFree = true)
          ∧ (dtcs ≠ [] → m.dtcs = dtcs) := by
  intro dtcs
  have hrange : ∀ d ∈ dtcs, d.InRange := by decide
  exact ⟨hrange, lists_round_trip Lamps.new hrange (List.replicate 12 0)⟩

end SaeJ1939.Diagnostics
