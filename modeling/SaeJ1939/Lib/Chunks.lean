/-
  SaeJ1939.Lib.Chunks — cutting a byte string into padded pieces.

  A sender cuts a string into chunks of `w` elements and fills the last
  one up; a receiver glues the pieces together and cuts the result at the
  announced length.

  Main results:
    * `slice_chunk` — the slice a sender takes is a chunk.
    * `take_append_chunk` — one more chunk extends the prefix received.
    * `take_append_pad` — the last chunk, padded, completes the string.
    * `chunk_append_left`, `chunk_append_right`, `chunk_take` — the chunks
      of a string that was made longer or shorter.
    * `copy_chunk` — copying a chunk into an array, clamped to a size,
      succeeds and extends the prefix held there.
-/
import SaeJ1939.Lib.Checked

namespace Chunks

open Checked

variable {α : Type}

/-! ## §1. Chunks and their padding. -/

/-- The `k`-th chunk of `w` elements, counted from `0`. -/
def chunk (w : Nat) (xs : List α) (k : Nat) : List α := (xs.drop (w * k)).take w

/-- A chunk filled up to `w` elements. -/
def pad (w : Nat) (fill : α) (ys : List α) : List α := List.ofFn fun i : Fin w => ys.getD i.val fill

@[simp] theorem length_pad (w : Nat) (fill : α) (ys : List α) : (pad w fill ys).length = w :=
  List.length_ofFn

theorem length_chunk {w : Nat} {xs : List α} {k : Nat} :
    (chunk w xs k).length = min w (xs.length - w * k) := by
  rw [chunk, List.length_take, List.length_drop]

theorem getElem_pad {w : Nat} {fill : α} {ys : List α} {i : Nat}
    (hi : i < (pad w fill ys).length) (hi' : i < ys.length) : (pad w fill ys)[i] = ys[i] := by
  simp only [pad, List.getElem_ofFn, List.getD_eq_getElem?_getD, List.getElem?_eq_getElem hi',
    Option.getD_some]

/-- A full chunk needs no filling. -/
theorem pad_of_length {w : Nat} {fill : α} {ys : List α} (h : ys.length = w) :
    pad w fill ys = ys := by
  apply List.ext_getElem
  · rw [length_pad, h]
  · intro i hi hi'
    exact getElem_pad hi hi'

/-- Filling a chunk up leaves its own elements in front. -/
theorem take_pad {w : Nat} {fill : α} {ys : List α} (h : ys.length ≤ w) :
    (pad w fill ys).take ys.length = ys := by
  apply List.ext_getElem
  · simp [h]
  · intro i hi hi'
    rw [List.getElem_take]
    exact getElem_pad _ hi'

/-- **The slice a sender takes is a chunk.** -/
theorem slice_chunk {w : Nat} {xs : List α} {k : Nat} (h : w * k ≤ xs.length) :
    slice xs (w * k) (min (w * k + w) xs.length) = .ok (chunk w xs k) := by
  rw [slice_ok (by omega) (Nat.min_le_right _ _), chunk, List.drop_take]
  congr 1
  rw [show min (w * k + w) xs.length - w * k = min w (xs.length - w * k) by omega,
    ← List.length_drop, ← List.take_eq_take_min]

/-- **One more chunk extends the prefix received.** -/
theorem take_append_chunk (w : Nat) (xs : List α) (k : Nat) :
    xs.take (w * k) ++ chunk w xs k = xs.take (w * (k + 1)) := by
  rw [chunk, Nat.mul_succ, List.take_add]

/-- As `take_append_chunk`, for a padded chunk that is full. -/
theorem take_append_full {w : Nat} {fill : α} {xs : List α} {k : Nat}
    (h : w * (k + 1) ≤ xs.length) :
    xs.take (w * k) ++ pad w fill (chunk w xs k) = xs.take (w * (k + 1)) := by
  have hfull : (chunk w xs k).length = w := by
    rw [length_chunk]
    rw [Nat.mul_succ] at h
    omega
  rw [pad_of_length hfull, take_append_chunk]

/-- **The last chunk, padded, completes the string.** -/
theorem take_append_pad {w : Nat} {fill : α} {xs : List α} {k : Nat}
    (h₁ : w * k ≤ xs.length) (h₂ : xs.length ≤ w * (k + 1)) :
    (xs.take (w * k) ++ pad w fill (chunk w xs k)).take xs.length = xs := by
  rw [Nat.mul_succ] at h₂
  have hlast : (chunk w xs k).length = xs.length - w * k := by
    rw [length_chunk]
    omega
  rw [List.take_append, List.length_take_of_le h₁, List.take_take, Nat.min_eq_right h₁, ← hlast,
    take_pad (by omega), take_append_chunk, Nat.mul_succ, List.take_of_length_le h₂]

/-! ## §2. Chunks of longer and of shorter strings. -/

/-- What is appended later does not change a full chunk. -/
theorem chunk_append_left {w : Nat} {xs ys : List α} {k : Nat} (h : w * (k + 1) ≤ xs.length) :
    chunk w (xs ++ ys) k = chunk w xs k := by
  rw [Nat.mul_succ] at h
  unfold chunk
  rw [List.drop_append_of_le_length (by omega), List.take_append_of_le_length]
  rw [List.length_drop]
  omega

/-- What is appended to full chunks starts the next one. -/
theorem chunk_append_right {w : Nat} {xs ys : List α} {k : Nat} (h : xs.length = w * k) :
    chunk w (xs ++ ys) k = ys.take w := by
  unfold chunk
  rw [List.drop_append, List.drop_of_length_le (by omega), h, Nat.sub_self, List.drop_zero,
    List.nil_append]

/-- Cutting a string off cuts its chunks off. -/
theorem chunk_take {w m : Nat} {xs : List α} {k : Nat} :
    chunk w (xs.take m) k = (chunk w xs k).take (m - w * k) := by
  unfold chunk
  rw [List.drop_take, List.take_take, List.take_take, Nat.min_comm]

/-! ## §3. Copying chunks. -/

/-- **Copying a piece into an array**, clamped to the size of the whole:
the slice and the write succeed, and up to the end of the piece the array
holds the old prefix followed by it. -/
theorem copy_chunk {n w k size : Nat} {a : Fin n → α} {piece : List α} (hw : piece.length = w)
    (hstart : w * k ≤ size) (hfits : size ≤ n) :
    let stop := min (w * k + w) size
    slice piece 0 (stop - w * k) = .ok (piece.take (stop - w * k))
      ∧ ∃ b, write a (w * k) stop (piece.take (stop - w * k)) = .ok b
        ∧ (List.ofFn b).take stop = ((List.ofFn a).take (w * k) ++ piece).take stop := by
  intro stop
  have hle : stop ≤ w * k + w := Nat.min_le_left _ _
  have hsize : stop ≤ size := Nat.min_le_right _ _
  have hge : w * k ≤ stop := le_min (Nat.le_add_right _ _) hstart
  have hlen : stop - w * k ≤ piece.length := by omega
  have hprefix : ((List.ofFn a).take (w * k)).length = w * k := by
    rw [List.length_take, List.length_ofFn]
    omega
  obtain ⟨b, hb⟩ : ∃ b, write a (w * k) stop (piece.take (stop - w * k)) = .ok b :=
    ⟨_, write_ok hge (by omega) (List.length_take_of_le hlen)⟩
  have hshort : ((List.ofFn a).take (w * k)).length ≤ stop := hprefix.trans_le hge
  refine ⟨slice_zero_ok hlen, b, hb, ?_⟩
  rw [take_write hb, List.take_append, List.take_of_length_le hshort, hprefix]

end Chunks
