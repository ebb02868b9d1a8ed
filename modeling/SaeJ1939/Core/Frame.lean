/-
  SaeJ1939.Core.Frame — a single CAN frame (`frame.rs`).

  A frame is an identifier and up to eight payload bytes; the unused
  bytes are `0xFF`.  Both facts are fields, since the two constructors
  are the only way to build one.
-/
import SaeJ1939.Core.Bytes
import SaeJ1939.Core.Id

namespace SaeJ1939

/-- One J1939 frame. -/
structure Frame where
  id : Id
  payload : Payload
  len : Nat
  len_le : len ≤ 8
  filled : ∀ i : Fin 8, len ≤ i.val → payload i = fill
  deriving DecidableEq

namespace Frame

/-- The maximum payload of a single classic CAN frame. -/
def maxPayload : Nat := 8

/-- Build a frame from an identifier and at most eight bytes. -/
def new (id : Id) (data : List UInt8) : Result Frame :=
  if h : data.length > maxPayload then .error (.shortPayload maxPayload data.length)
  else .ok
    { id := id
      payload := fun i => data.getD i.val fill
      len := data.length
      len_le := Nat.le_of_not_gt h
      filled := fun i hi => by simp [List.getD_eq_getElem?_getD, hi] }

/-- Build a frame from an identifier and a full eight-byte payload. -/
def fromPayload (id : Id) (data : Payload) : Frame where
  id := id
  payload := data
  len := 8
  len_le := Nat.le_refl 8
  filled := fun i hi => absurd i.isLt (by omega)

/-- The parameter group this frame carries. -/
def pgn (f : Frame) : Pgn := f.id.pgn

/-- The address of the ECU that sent this frame. -/
def sourceAddress (f : Frame) : Address := f.id.sourceAddress

/-- The payload, trimmed to the frame's data length. -/
def data (f : Frame) : List UInt8 := (List.ofFn f.payload).take f.len

/-- Prints in the `candump` format: `18FECA80#04002B`. -/
def display (f : Frame) : List Char :=
  f.id.display ++ '#' :: f.data.flatMap fun byte => Text.zeroPadded 2 (Text.upperHex byte.toNat)

theorem data_length (f : Frame) : f.data.length = f.len := by
  have := f.len_le
  simp [data, this]

/-- **A frame is its identifier and its data.** -/
theorem eq_of_data {f g : Frame} (hid : f.id = g.id) (hdata : f.data = g.data) : f = g := by
  have hlen : f.len = g.len := by rw [← data_length f, ← data_length g, hdata]
  have hpayload : f.payload = g.payload := by
    funext i
    by_cases hi : f.len ≤ i.val
    · rw [f.filled i hi, g.filled i (hlen ▸ hi)]
    · -- a byte of the data
      have hbyte : ∀ h : Frame, i.val < h.len → h.data[i.val]? = some (h.payload i) := by
        intro h hlt
        rw [data, List.getElem?_take_of_lt hlt, List.getElem?_ofFn, dif_pos i.isLt]
      have hf := hbyte f (Nat.not_le.mp hi)
      have hg := hbyte g (hlen ▸ Nat.not_le.mp hi)
      rw [hdata, hg] at hf
      exact (Option.some.inj hf).symm
  cases f
  cases g
  dsimp only at hid hlen hpayload
  subst hid hlen hpayload
  rfl

/-- **A new frame carries exactly the bytes it was built from.** -/
theorem data_new {id : Id} {data : List UInt8} {f : Frame} (h : new id data = .ok f) :
    f.id = id ∧ f.data = data := by
  unfold new at h
  split at h
  next => cases h
  next hlen =>
    injection h with h
    subst h
    refine ⟨rfl, ?_⟩
    show (List.ofFn fun i : Fin 8 => data.getD i.val fill).take data.length = data
    unfold maxPayload at hlen
    apply List.ext_getElem
    · rw [List.length_take, List.length_ofFn]
      omega
    · intro i hi hi'
      rw [List.getElem_take, List.getElem_ofFn, List.getD_eq_getElem?_getD,
        List.getElem?_eq_getElem hi', Option.getD_some]

/-- At most eight bytes fit a frame. -/
theorem new_ok (id : Id) {data : List UInt8} (h : data.length ≤ maxPayload) :
    ∃ f, new id data = .ok f := by
  unfold new
  rw [dif_neg (Nat.not_lt.mpr h)]
  exact ⟨_, rfl⟩

@[simp] theorem id_fromPayload (id : Id) (data : Payload) : (fromPayload id data).id = id := rfl

@[simp] theorem payload_fromPayload (id : Id) (data : Payload) :
    (fromPayload id data).payload = data := rfl

/-- The data of a full frame. -/
theorem data_fromPayload (id : Id) (p : Payload) :
    (fromPayload id p).data = [p 0, p 1, p 2, p 3, p 4, p 5, p 6, p 7] := rfl

end Frame

end SaeJ1939
