/-
  SaeJ1939.Host.Verbatim — a logged frame replays (`frame.rs`, `id.rs` and
  `log.rs`).

  A frame prints in the format of a capture: eight digits, `#`, and two
  digits for every byte of its data.

  Main results:
    * `candump_display` — what a frame prints is that frame in the format
      of a capture.
    * `logged_frame_replays` — so a line with it is read back as it.
-/
import SaeJ1939.Host.Log

namespace SaeJ1939.Host.Log

open Checked Text

/-! ## §1. Digits and bytes. -/

theorem isHex_displayed (bytes : List UInt8) :
    ∀ c ∈ bytes.flatMap fun byte => zeroPadded 2 (upperHex byte.toNat), isHex c = true := by
  intro c hc
  obtain ⟨byte, -, hc⟩ := List.mem_flatMap.mp hc
  exact (zeroPadded_upperHex (by decide) byte.toNat_lt).2.1 c hc

theorem length_displayed (bytes : List UInt8) :
    (bytes.flatMap fun byte => zeroPadded 2 (upperHex byte.toNat)).length = 2 * bytes.length := by
  induction bytes with
  | nil => rfl
  | cons byte bytes ih =>
    rw [List.flatMap_cons, List.length_append, ih, List.length_cons,
      (zeroPadded_upperHex (by decide) byte.toNat_lt).1]
    omega

/-- **Bytes printed with two digits each are read back.** -/
theorem hexBytes_displayed (bytes : List UInt8) :
    hexBytes (bytes.flatMap fun byte => zeroPadded 2 (upperHex byte.toNat)) = bytes := by
  induction bytes with
  | nil => rfl
  | cons byte bytes ih =>
    obtain ⟨hlength, -, hvalue⟩ := zeroPadded_upperHex (show 0 < 2 by decide) byte.toNat_lt
    -- two digits are one byte
    obtain ⟨a, b, hpair⟩ := List.length_eq_two.mp hlength
    rw [hpair] at hvalue
    rw [List.flatMap_cons, hpair]
    show UInt8.ofNat (hexValue [a, b])
      :: hexBytes (bytes.flatMap fun byte => zeroPadded 2 (upperHex byte.toNat)) = byte :: bytes
    rw [ih, hvalue, UInt8.ofNat_toNat]

/-! ## §2. What a frame prints. -/

theorem display_id (id : Id) :
    id.display.length = 8 ∧ (∀ c ∈ id.display, isHex c = true) ∧ hexValue id.display = id.raw := by
  have hraw := id.raw_le
  exact zeroPadded_upperHex (by decide) (by omega)

/-- **A frame prints in the format of a capture.** -/
theorem candump_display (f : Frame) : Candump f.display f := by
  obtain ⟨hlength, hdigits, hvalue⟩ := display_id f.id
  have hdata : f.data.length ≤ 8 := f.data_length ▸ f.len_le
  refine ⟨f.id.display, _, rfl, ⟨hdigits, ?_, ?_, hvalue.symm⟩, isHex_displayed f.data, ?_, ?_,
    (hexBytes_displayed f.data).symm⟩
  · rw [hlength]
    decide
  · rw [hvalue]
    exact f.id.raw_le
  · rw [length_displayed]
    omega
  · rw [length_displayed]
    omega

/-- What a frame prints is one word. -/
theorem display_solid (f : Frame) : ∀ c ∈ f.display, isWhitespace c = false := by
  intro c hc
  rcases List.mem_append.mp hc with hc | hc
  · exact isWhitespace_of_isHex ((display_id f.id).2.1 c hc)
  · rcases List.mem_cons.mp hc with rfl | hc
    · decide
    · exact isWhitespace_of_isHex (isHex_displayed f.data c hc)

/-! ## §3. A line with it. -/

/-- A timestamp holds no parenthesis. -/
theorem closed_of_isFloat {stamp : List Char} (h : isFloat (trim stamp) = true) : ')' ∉ stamp := by
  intro hmem
  have hdigit : ¬ Char.isDigit ')' = true := by decide
  have hsign : ')' ∉ ['.', 'e', 'E', '+', '-'] := by decide
  have hword : Char.toLower ')' ∉ "infinityna".toList := by decide +kernel
  rcases mem_of_isFloat h (mem_trim hmem (by decide)) with h | h | h
  · exact hdigit h
  · exact hsign h
  · exact hword h

/-- The line a capture has for a frame. -/
def logged (stamp interface : List Char) (f : Frame) : List Char :=
  '(' :: (stamp ++ ')' :: ' ' :: (interface ++ ' ' :: f.display))

theorem framed_logged {stamp interface : List Char} (hstamp : isFloat (trim stamp) = true)
    (hne : interface ≠ []) (hsolid : ∀ c ∈ interface, isWhitespace c = false) (f : Frame) :
    Framed (logged stamp interface f) stamp f.display := by
  have hdisplay : f.display ≠ [] := List.append_ne_nil_of_right_ne_nil _ (List.cons_ne_nil _ _)
  have hlast : isWhitespace (f.display.getLast hdisplay) = false :=
    display_solid f _ (List.getLast_mem hdisplay)
  -- nothing is trimmed off the line
  have htrim : trim (logged stamp interface f) = logged stamp interface f := by
    have hsnoc : logged stamp interface f
        = '(' :: ((stamp ++ ')' :: ' ' :: (interface ++ ' ' :: f.display.dropLast))
            ++ [f.display.getLast hdisplay]) := by
      have hparts := List.dropLast_append_getLast hdisplay
      unfold logged
      conv_lhs => rw [← hparts]
      simp only [List.append_assoc, List.cons_append]
    rw [hsnoc]
    exact trim_eq_self (by decide) hlast
  exact ⟨⟨_, interface, [], htrim, splitWhitespace_two hne hdisplay hsolid (display_solid f)⟩,
    closed_of_isFloat hstamp, hstamp⟩

/-- **A logged frame replays verbatim.** -/
theorem logged_frame_replays (τ : Type) [Seconds τ] (number : Nat) {stamp interface : List Char}
    (hstamp : isFloat (trim stamp) = true) (hne : interface ≠ [])
    (hsolid : ∀ c ∈ interface, isWhitespace c = false) (f : Frame) :
    parseLine τ (logged stamp interface f) number
      = .ok (.ok (some ⟨Seconds.ofText (trim stamp), f⟩)) :=
  parseLine_loose τ number (framed_logged hstamp hne hsolid f)
    (candump_iff.mp (candump_display f)).1

/-- A frame without data, on a bus called `can0`. -/
theorem logged_frame_replays_empty :
    ∃ f : Frame, f.data = [] ∧ logged "1.5".toList "can0".toList f = "(1.5) can0 18FECA80#".toList
      ∧ parseLine Nat (logged "1.5".toList "can0".toList f) 1
          = .ok (.ok (some ⟨Seconds.ofText (trim "1.5".toList), f⟩)) := by
  obtain ⟨f, hf⟩ := Frame.new_ok (⟨0x18FECA80, by decide⟩ : Id) (show [].length ≤ 8 by decide)
  obtain ⟨hid, hdata⟩ := Frame.data_new hf
  have hsolid : ∀ c ∈ "can0".toList, isWhitespace c = false := by
    have hall : ("can0".toList.all fun c => !isWhitespace c) = true := by decide +kernel
    intro c hc
    simpa using List.all_eq_true.mp hall c hc
  refine ⟨f, hdata, ?_, logged_frame_replays Nat 1 (by decide +kernel) (by decide +kernel) hsolid f⟩
  unfold logged Frame.display
  rw [hid, hdata]
  decide +kernel

end SaeJ1939.Host.Log
