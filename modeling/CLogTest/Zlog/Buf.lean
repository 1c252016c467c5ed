import CLogTest.Storage.LimitedText
import CLogTest.Zlog.Level
import CLogTest.Zlog.Printf

set_option autoImplicit false

/-! # Buffers (`src/zlog/buf.c`)

A buffer that grows up to a limit, in which zlog builds messages and paths. Whatever is appended in
whatever way, and whatever memory is refused, nothing is written outside of the buffer, and while
memory is granted, it has the text appended so far, cut to the limit (`runWrites_limited`).

A buffer is the text from `start` to `tail`; what is behind is never read. The sizes are natural
numbers: an object is smaller than 2^63 bytes, so that the sum of two of them does not wrap around.
`none` is undefined behaviour: a write outside of the buffer. -/

namespace CLogTest.Zlog

open LimitedText

/-- `zlog_buf_t`. There is no text if `start` is null, after a `realloc` that failed. -/
structure ZlogBuf where
  text : Option Text
  sizeMin : ℕ
  sizeMax : ℕ
  sizeReal : ℕ
  truncateStr : Text

/-- `zlog_buf_restart`. -/
def zlogBufRestart (aBuf : ZlogBuf) : ZlogBuf := { aBuf with text := aBuf.text.map fun _ => [] }

namespace ZlogBuf

/-- `end - tail`, with `end` the last byte. -/
def left (aBuf : ZlogBuf) : ℕ :=
  match aBuf.text with
  | some text => aBuf.sizeReal - 1 - text.length
  | none => 0

/-- Bytes are written at the tail, which moves behind them. -/
def write (s : Text) (aBuf : ZlogBuf) : Option ZlogBuf :=
  match aBuf.text with
  | some text =>
      if text.length + s.length ≤ aBuf.sizeReal then some { aBuf with text := some (text ++ s) }
      else none
  | none => if s = [] then some aBuf else none

end ZlogBuf

/-- `zlog_buf_truncate`. -/
def zlogBufTruncate (aBuf : ZlogBuf) : Option ZlogBuf :=
  if aBuf.truncateStr = [] then some aBuf
  else aBuf.text.map fun text => { aBuf with text := some (mark aBuf.truncateStr text) }

/-- `zlog_buf_resize`. -/
def zlogBufResize (increment : ℕ) (aBuf : ZlogBuf) (w : World) : ℤ × ZlogBuf × World :=
  if aBuf.sizeMax ≠ 0 ∧ aBuf.sizeMax ≤ aBuf.sizeReal then (1, aBuf, w)
  else
    let (newSize, rc) : ℕ × ℤ :=
      -- size_real + 1.5 * increment
      if aBuf.sizeMax = 0 then (aBuf.sizeReal + 3 * increment / 2, 0)
      else if aBuf.sizeReal + increment ≤ aBuf.sizeMax then (aBuf.sizeReal + increment, 0)
      else (aBuf.sizeMax, 1)
    let (granted, w) := w.attempt
    if granted then (rc, { aBuf with text := some (aBuf.text.getD []), sizeReal := newSize }, w)
    else (-1, { aBuf with text := none }, w)

/-- The bytes that `memcpy` reads, if there are as many. -/
def memcpy (str : Text) (n : ℕ) : Option Text := if n ≤ str.length then some (str.take n) else none

/-- What all functions that write to a buffer do: `full` is written if there is room or can be made,
    else what `cut` gives for the room there is. -/
def ZlogBuf.emit (full : Text) (cut : ℕ → Option Text) (aBuf : ZlogBuf) (w : World) :
    Option (ℤ × ZlogBuf × World) :=
  if full.length ≤ aBuf.left then (aBuf.write full).map fun aBuf => (0, aBuf, w)
  else
    let (rc, aBuf, w) := zlogBufResize (full.length - aBuf.left) aBuf w
    if 0 < rc then do
      let part ← cut aBuf.left
      let aBuf ← aBuf.write part
      let aBuf ← zlogBufTruncate aBuf
      some (1, aBuf, w)
    else if rc < 0 then some (-1, aBuf, w)
    else (aBuf.write full).map fun aBuf => (0, aBuf, w)

/-- `zlog_buf_append`. -/
def zlogBufAppend (str : Text) : ZlogBuf → World → Option (ℤ × ZlogBuf × World) :=
  ZlogBuf.emit str (memcpy str)

/-- The other functions check for a null buffer first. -/
def ZlogBuf.unlessNull (emit : ZlogBuf → World → Option (ℤ × ZlogBuf × World)) (aBuf : ZlogBuf)
    (w : World) : Option (ℤ × ZlogBuf × World) :=
  if aBuf.text = none then some (-1, aBuf, w) else emit aBuf w

open ZlogBuf

/-- `zlog_buf_vprintf`, where the format and its arguments yield `printed`, or cannot be
    converted. -/
def zlogBufVprintf (printed : Option Text) : ZlogBuf → World → Option (ℤ × ZlogBuf × World) :=
  unlessNull fun aBuf w =>
    match printed with
    | some printed => emit printed (fun left => some (printed.take left)) aBuf w
    | none => some (-1, aBuf, w)

/-! ## Numbers -/

/-- The loop `do { *--p = n % 10 + '0'; } while (n /= 10)`. -/
def decLoop (n : ℕ) (p : Text) : Text :=
  let p := Char.ofNat (n % 10 + '0'.toNat) :: p
  if n / 10 = 0 then p else decLoop (n / 10) p
termination_by n
decreasing_by omega

/-- The loop `do { *--p = hex[n & 0xf]; } while (n >>= 4)`. -/
def hexLoop (n : ℕ) (p : Text) : Text :=
  let p := "0123456789abcdef".toList.getD (n &&& 0xf) '0' :: p
  if n >>> 4 = 0 then p else hexLoop (n >>> 4) p
termination_by n
decreasing_by
  rw [Nat.shiftRight_eq_div_pow] at *
  omega

/-- What the functions for numbers have in common: zeros on the left, up to the width. -/
def zlogBufPrintfNumber (num : Text) (width : ℕ) : ZlogBuf → World → Option (ℤ × ZlogBuf × World) :=
  let zeroLen := if num.length < width then width - num.length else 0
  unlessNull (emit (List.replicate zeroLen '0' ++ num) fun left =>
    if left ≤ zeroLen then some (List.replicate left '0')
    else (memcpy num (left - zeroLen)).map (List.replicate zeroLen '0' ++ ·))

/-- `zlog_buf_printf_dec32`. -/
def zlogBufPrintfDec32 (ui32 : UInt32) : ℕ → ZlogBuf → World → Option (ℤ × ZlogBuf × World) :=
  zlogBufPrintfNumber (decLoop ui32.toNat [])

/-- `zlog_buf_printf_dec64`. -/
def zlogBufPrintfDec64 (ui64 : UInt64) : ℕ → ZlogBuf → World → Option (ℤ × ZlogBuf × World) :=
  -- numbers that fit are divided with 32 bits
  zlogBufPrintfNumber (if ui64 ≤ 0xffffffff then decLoop ui64.toUInt32.toNat []
    else decLoop ui64.toNat [])

/-- `zlog_buf_printf_hex`. -/
def zlogBufPrintfHex (ui32 : UInt32) : ℕ → ZlogBuf → World → Option (ℤ × ZlogBuf × World) :=
  zlogBufPrintfNumber (hexLoop ui32.toNat [])

/-! ## Widths -/

/-- `zlog_buf_adjust_append`. -/
def zlogBufAdjustAppend (str : Text) (leftAdjust zeroPad : Bool) (inWidth outWidth : ℕ) :
    ZlogBuf → World → Option (ℤ × ZlogBuf × World) :=
  let sourceLen := if outWidth = 0 ∨ str.length < outWidth then str.length else outWidth
  let spaceLen := if inWidth = 0 ∨ inWidth ≤ sourceLen then 0 else inWidth - sourceLen
  let pad := if zeroPad then '0' else ' '
  unlessNull (if leftAdjust then
    emit (str.take sourceLen ++ List.replicate spaceLen ' ') fun left =>
      if sourceLen < left then some (str.take sourceLen ++ List.replicate (left - sourceLen) ' ')
      else memcpy str left
  else
    emit (List.replicate spaceLen pad ++ str.take sourceLen) fun left =>
      if spaceLen < left then
        (memcpy str (left - spaceLen)).map (List.replicate spaceLen pad ++ ·)
      else some (List.replicate left pad))

/-! ## The operations -/

/-- The functions that write to a buffer. -/
inductive BufOp
  | append (str : Text)
  | vprintf (printed : Text)
  | dec32 (ui32 : UInt32) (width : ℕ)
  | dec64 (ui64 : UInt64) (width : ℕ)
  | hex (ui32 : UInt32) (width : ℕ)
  | adjustAppend (str : Text) (leftAdjust zeroPad : Bool) (inWidth outWidth : ℕ)

def BufOp.exec : BufOp → ZlogBuf → World → Option (ℤ × ZlogBuf × World)
  | append str => zlogBufAppend str
  | vprintf printed => zlogBufVprintf (some printed)
  | dec32 ui32 width => zlogBufPrintfDec32 ui32 width
  | dec64 ui64 width => zlogBufPrintfDec64 ui64 width
  | hex ui32 width => zlogBufPrintfHex ui32 width
  | adjustAppend str leftAdjust zeroPad inWidth outWidth =>
      zlogBufAdjustAppend str leftAdjust zeroPad inWidth outWidth

/-- A number, with zeros on the left up to the width. -/
def padded (num : Text) (width : ℕ) : Text := List.replicate (width - num.length) '0' ++ num

/-- A text of at least `inWidth` characters, and at most `outWidth` of its own unless that is 0. -/
def adjusted (str : Text) (leftAdjust zeroPad : Bool) (inWidth outWidth : ℕ) : Text :=
  let source := if outWidth = 0 then str else str.take outWidth
  let spaceLen := inWidth - source.length
  if leftAdjust then source ++ List.replicate spaceLen ' '
  else List.replicate spaceLen (if zeroPad then '0' else ' ') ++ source

/-- What an operation appends where there is room. -/
def BufOp.piece : BufOp → Text
  | append str => str
  | vprintf printed => printed
  | dec32 ui32 width => padded (Nat.toDigits 10 ui32.toNat) width
  | dec64 ui64 width => padded (Nat.toDigits 10 ui64.toNat) width
  | hex ui32 width => padded (Nat.toDigits 16 ui32.toNat) width
  | adjustAppend str leftAdjust zeroPad inWidth outWidth =>
      adjusted str leftAdjust zeroPad inWidth outWidth

/-- The buffer has this text, respects its limit and has room for a final null character. -/
structure ZlogBuf.Holds (aBuf : ZlogBuf) (text : Text) : Prop where
  text_eq : aBuf.text = some text
  room : text.length < aBuf.sizeReal
  bounded : aBuf.sizeMax = 0 ∨ aBuf.sizeReal ≤ aBuf.sizeMax

theorem ZlogBuf.Holds.restart {aBuf : ZlogBuf} {text : Text} (h : aBuf.Holds text) :
    (zlogBufRestart aBuf).Holds [] where
  text_eq := by
    show aBuf.text.map _ = _
    rw [h.text_eq]
    rfl
  room := Nat.zero_lt_of_lt h.room
  bounded := h.bounded

theorem ZlogBuf.Holds.fits {aBuf : ZlogBuf} {text : Text} (h : aBuf.Holds text) :
    Fits aBuf.sizeMax text :=
  h.bounded.imp_right fun hle => lt_of_lt_of_le h.room hle

/-- What comes of a write to a buffer that has `text`. -/
structure Emitted (full text : Text) (aBuf : ZlogBuf) (w : World) (rc : ℤ) (aBuf' : ZlogBuf)
    (w' : World) : Prop where
  sizeMax : aBuf'.sizeMax = aBuf.sizeMax
  truncateStr : aBuf'.truncateStr = aBuf.truncateStr
  reliable : w.Reliable → w'.Reliable
  outcome : rc = -1 ∧ aBuf'.text = none ∧ ¬ w.Reliable
    ∨ rc = (if Fits aBuf.sizeMax (text ++ full) then 0 else 1)
      ∧ aBuf'.Holds (limited aBuf.sizeMax aBuf.truncateStr (text ++ full))

/-- A write that returns 0 kept everything. -/
theorem Emitted.holds_of_zero {aBuf aBuf' : ZlogBuf} {text full : Text} {w w' : World}
    (h : Emitted full text aBuf w 0 aBuf' w') :
    Fits aBuf.sizeMax (text ++ full) ∧ aBuf'.Holds (text ++ full) := by
  rcases h.outcome with ⟨h0, -, -⟩ | ⟨h0, hholds⟩
  · exact absurd h0 (by decide)
  · have hfits : Fits aBuf.sizeMax (text ++ full) := by
      by_contra hfits
      rw [if_neg hfits] at h0
      exact absurd h0 (by decide)
    rw [limited_of_fits hfits] at hholds
    exact ⟨hfits, hholds⟩

/-- What `zlog_buf_resize` can do. -/
theorem zlogBufResize_cases {increment : ℕ} (hpos : 0 < increment) {aBuf : ZlogBuf} {text : Text}
    (h : aBuf.Holds text) (w : World) :
    ∃ rc aBuf' w', zlogBufResize increment aBuf w = (rc, aBuf', w')
      ∧ (w.Reliable → w'.Reliable)
      ∧ (rc = -1 ∧ aBuf' = { aBuf with text := none } ∧ ¬ w.Reliable
        ∨ ∃ newSize, aBuf' = { aBuf with sizeReal := newSize } ∧ aBuf.sizeReal ≤ newSize
          ∧ (aBuf.sizeMax = 0 ∨ newSize ≤ aBuf.sizeMax)
          ∧ (rc = 0 ∧ aBuf.sizeReal + increment ≤ newSize
            ∨ rc = 1 ∧ aBuf.sizeMax ≠ 0 ∧ newSize = aBuf.sizeMax
              ∧ newSize < aBuf.sizeReal + increment)) := by
  have hbounded := h.bounded
  have hsame : aBuf.text.getD [] = text := by rw [h.text_eq]; rfl
  unfold zlogBufResize
  by_cases hfull : aBuf.sizeMax ≠ 0 ∧ aBuf.sizeMax ≤ aBuf.sizeReal
  · rw [if_pos hfull]
    refine ⟨1, aBuf, w, rfl, id, .inr ⟨aBuf.sizeReal, rfl, le_refl _, hbounded, .inr ?_⟩⟩
    omega
  rw [if_neg hfull, hsame, ← h.text_eq]
  cases hgranted : w.attempt.1 with
  | false =>
      have hw : ¬ w.Reliable := fun hw => by
        rw [World.attempt_of_reliable hw] at hgranted
        exact Bool.noConfusion hgranted
      exact ⟨-1, { aBuf with text := none }, w.attempt.2, by simp [hgranted],
        w.attempt_silent.reliable, .inl ⟨rfl, rfl, hw⟩⟩
  | true =>
      by_cases hmax : aBuf.sizeMax = 0
      · refine ⟨0, { aBuf with sizeReal := aBuf.sizeReal + 3 * increment / 2 }, w.attempt.2,
          by simp [hgranted, hmax], w.attempt_silent.reliable,
          .inr ⟨_, rfl, ?_, .inl hmax, .inl ⟨rfl, ?_⟩⟩⟩ <;> omega
      · by_cases hfits : aBuf.sizeReal + increment ≤ aBuf.sizeMax
        · exact ⟨0, { aBuf with sizeReal := aBuf.sizeReal + increment }, w.attempt.2,
            by simp [hgranted, hmax, hfits], w.attempt_silent.reliable,
            .inr ⟨_, rfl, Nat.le_add_right .., .inr hfits, .inl ⟨rfl, le_refl _⟩⟩⟩
        · refine ⟨1, { aBuf with sizeReal := aBuf.sizeMax }, w.attempt.2,
            by simp [hgranted, hmax, hfits], w.attempt_silent.reliable,
            .inr ⟨_, rfl, ?_, .inr (le_refl _), .inr ⟨rfl, hmax, rfl, ?_⟩⟩⟩ <;> omega

theorem ZlogBuf.write_of_le {aBuf : ZlogBuf} {text s : Text} (htext : aBuf.text = some text)
    (hle : text.length + s.length ≤ aBuf.sizeReal) :
    aBuf.write s = some { aBuf with text := some (text ++ s) } := by
  unfold write
  rw [htext]
  exact if_pos hle

theorem zlogBufTruncate_eq {aBuf : ZlogBuf} {text : Text} (htext : aBuf.text = some text) :
    zlogBufTruncate aBuf = some { aBuf with text := some (mark aBuf.truncateStr text) } := by
  unfold zlogBufTruncate
  split
  · next h =>
      obtain ⟨_, _, _, _, _⟩ := aBuf
      obtain rfl := htext
      obtain rfl := h
      rw [mark_nil]
  · rw [htext]
    rfl

theorem ZlogBuf.Holds.left_eq {aBuf : ZlogBuf} {text : Text} (h : aBuf.Holds text) :
    aBuf.left = aBuf.sizeReal - 1 - text.length := by
  unfold left
  rw [h.text_eq]

/-- A text with room for all of it. -/
theorem ZlogBuf.Holds.write_full {aBuf : ZlogBuf} {text : Text} (h : aBuf.Holds text)
    (full : Text) (hle : full.length ≤ aBuf.left) :
    Fits aBuf.sizeMax (text ++ full)
      ∧ ∃ aBuf', aBuf.write full = some aBuf' ∧ aBuf'.sizeMax = aBuf.sizeMax
        ∧ aBuf'.truncateStr = aBuf.truncateStr ∧ aBuf'.Holds (text ++ full) := by
  have hroom := h.room
  have hbounded := h.bounded
  rw [h.left_eq] at hle
  have hlength : (text ++ full).length < aBuf.sizeReal := by
    rw [List.length_append]
    omega
  refine ⟨hbounded.imp_right fun hle => lt_of_lt_of_le hlength hle, _,
    write_of_le h.text_eq (by omega), rfl, rfl, rfl, hlength, hbounded⟩

/-- A text that goes beyond the limit, in a buffer that cannot grow. -/
theorem ZlogBuf.Holds.write_part {aBuf : ZlogBuf} {text : Text} (h : aBuf.Holds text)
    (full : Text) (hsize : aBuf.sizeReal = aBuf.sizeMax) (hlong : aBuf.left < full.length) :
    ¬ Fits aBuf.sizeMax (text ++ full)
      ∧ ∃ aBuf', ((aBuf.write (full.take aBuf.left)).bind zlogBufTruncate) = some aBuf'
        ∧ aBuf'.sizeMax = aBuf.sizeMax ∧ aBuf'.truncateStr = aBuf.truncateStr
        ∧ aBuf'.Holds (limited aBuf.sizeMax aBuf.truncateStr (text ++ full)) := by
  have hroom := h.room
  have hleft := h.left_eq
  have hfits : ¬ Fits aBuf.sizeMax (text ++ full) := by
    unfold Fits
    rw [List.length_append]
    omega
  have htake : text ++ full.take aBuf.left = (text ++ full).take (aBuf.sizeMax - 1) := by
    have hle : text.length ≤ aBuf.sizeMax - 1 := by omega
    rw [hleft, hsize, List.take_append, List.take_of_length_le hle]
  refine ⟨hfits, { aBuf with
    text := some (limited aBuf.sizeMax aBuf.truncateStr (text ++ full)) }, ?_, rfl, rfl, rfl, ?_,
    h.bounded⟩
  · rw [write_of_le h.text_eq (by rw [List.length_take, hleft]; omega), htake,
      limited_of_not_fits hfits]
    exact zlogBufTruncate_eq rfl
  · show (limited aBuf.sizeMax aBuf.truncateStr (text ++ full)).length < aBuf.sizeReal
    rw [hsize]
    refine (fits_limited ..).resolve_left ?_
    omega

/-- **A write succeeds as far as there is room**, and stays inside the buffer. -/
theorem emit_emitted {aBuf : ZlogBuf} {text : Text} (h : aBuf.Holds text) (w : World)
    {full : Text} {cut : ℕ → Option Text}
    (hcut : ∀ left < full.length, cut left = some (full.take left)) :
    ∃ rc aBuf' w', ZlogBuf.emit full cut aBuf w = some (rc, aBuf', w')
      ∧ Emitted full text aBuf w rc aBuf' w' := by
  unfold ZlogBuf.emit
  by_cases henough : full.length ≤ aBuf.left
  · rw [if_pos henough]
    obtain ⟨hfits, aBuf', hwrite, hmax, hstr, h'⟩ := h.write_full full henough
    refine ⟨0, aBuf', w, by rw [hwrite]; rfl, hmax, hstr, id, .inr ⟨(if_pos hfits).symm, ?_⟩⟩
    rwa [limited_of_fits hfits]
  · rw [if_neg henough]
    obtain ⟨rc, aBuf₁, w', hresize, hw', hcases⟩ :=
      zlogBufResize_cases (show 0 < full.length - aBuf.left by omega) h w
    rw [hresize]
    have hleft := h.left_eq
    have hroom := h.room
    rcases hcases with ⟨rfl, rfl, hw⟩ | ⟨newSize, rfl, hge, hbounded, hcases⟩
    · exact ⟨-1, _, w', rfl, rfl, rfl, hw', .inl ⟨rfl, rfl, hw⟩⟩
    have h₁ : ZlogBuf.Holds { aBuf with sizeReal := newSize } text :=
      ⟨h.text_eq, lt_of_lt_of_le hroom hge, hbounded⟩
    have hleft₁ := h₁.left_eq
    dsimp only at hleft₁
    rcases hcases with ⟨rfl, hsize⟩ | ⟨rfl, hmax, rfl, hsize⟩
    · obtain ⟨hfits, aBuf', hwrite, hmax, hstr, h'⟩ := h₁.write_full full (by omega)
      refine ⟨0, aBuf', w', ?_, hmax, hstr, hw', .inr ⟨(if_pos hfits).symm, ?_⟩⟩
      · simp [hwrite]
      · rwa [limited_of_fits hfits]
    · obtain ⟨hfits, aBuf', hwrite, hmax, hstr, h'⟩ := h₁.write_part full rfl (by omega)
      refine ⟨1, aBuf', w', ?_, hmax, hstr, hw', .inr ⟨(if_neg hfits).symm, h'⟩⟩
      have hpart := hcut ({ aBuf with sizeReal := aBuf.sizeMax } : ZlogBuf).left (by omega)
      simp only [Int.zero_lt_one, if_true, hpart, Option.bind_eq_bind, Option.bind_some]
      rw [← Option.bind_assoc, hwrite]
      rfl

/-! ## What the functions write -/

theorem memcpy_of_le {str : Text} {n : ℕ} (h : n ≤ str.length) :
    memcpy str n = some (str.take n) := if_pos h

theorem decLoop_eq (n : ℕ) (p : Text) : decLoop n p = Nat.toDigits 10 n ++ p := by
  have hdigit : ∀ d < 10, Char.ofNat (d + '0'.toNat) = Nat.digitChar d := by decide
  induction n using Nat.strongRecOn generalizing p with
  | ind n ih =>
      rw [decLoop, hdigit _ (Nat.mod_lt n (Nat.succ_pos 9)), Nat.toDigits_eq_if (by omega)]
      by_cases hlast : n / 10 = 0
      · rw [if_pos hlast, if_pos (by omega), Nat.mod_eq_of_lt (by omega)]
        rfl
      · rw [if_neg hlast, if_neg (by omega), ih _ (by omega), List.append_assoc]
        rfl

theorem hexLoop_eq (n : ℕ) (p : Text) : hexLoop n p = Nat.toDigits 16 n ++ p := by
  have hdigit : ∀ d < 16, "0123456789abcdef".toList.getD d '0' = Nat.digitChar d := by decide
  have hmask : ∀ n : ℕ, n &&& 0xf = n % 16 := fun n => Nat.and_two_pow_sub_one_eq_mod n 4
  have hshift : ∀ n : ℕ, n >>> 4 = n / 16 := fun n => Nat.shiftRight_eq_div_pow n 4
  induction n using Nat.strongRecOn generalizing p with
  | ind n ih =>
      rw [hexLoop, hmask, hshift, hdigit _ (Nat.mod_lt n (Nat.succ_pos 15)),
        Nat.toDigits_eq_if (by omega)]
      by_cases hlast : n / 16 = 0
      · rw [if_pos hlast, if_pos (by omega), Nat.mod_eq_of_lt (by omega)]
        rfl
      · rw [if_neg hlast, if_neg (by omega), ih _ (by omega), List.append_assoc]
        rfl

theorem zlogBufPrintfNumber_emitted {aBuf : ZlogBuf} {text : Text} (h : aBuf.Holds text)
    {num ds : Text} (hnum : num = ds) (width : ℕ) (w : World) :
    ∃ rc aBuf' w', zlogBufPrintfNumber num width aBuf w = some (rc, aBuf', w')
      ∧ Emitted (padded ds width) text aBuf w rc aBuf' w' := by
  subst hnum
  have hzero : (if num.length < width then width - num.length else 0) = width - num.length := by
    split <;> omega
  unfold zlogBufPrintfNumber unlessNull
  rw [hzero, if_neg (by rw [h.text_eq]; simp)]
  refine emit_emitted h w fun left hleft => ?_
  rw [List.length_append, List.length_replicate] at hleft
  split
  · next hle =>
      rw [List.take_append_of_le_length (by simpa using hle), List.take_replicate, min_eq_left hle]
  · next hlt =>
      rw [memcpy_of_le (by omega), Option.map_some,
        take_append_of_length_le (by rw [List.length_replicate]; omega), List.length_replicate]

theorem zlogBufAdjustAppend_emitted {aBuf : ZlogBuf} {text : Text} (h : aBuf.Holds text)
    (str : Text) (leftAdjust zeroPad : Bool) (inWidth outWidth : ℕ) (w : World) :
    ∃ rc aBuf' w',
      zlogBufAdjustAppend str leftAdjust zeroPad inWidth outWidth aBuf w = some (rc, aBuf', w')
        ∧ Emitted (adjusted str leftAdjust zeroPad inWidth outWidth) text aBuf w rc aBuf' w' := by
  obtain ⟨sourceLen, hsource, hle⟩ : ∃ sourceLen,
      sourceLen = (if outWidth = 0 ∨ str.length < outWidth then str.length else outWidth)
        ∧ sourceLen ≤ str.length := by
    refine ⟨_, rfl, ?_⟩
    split <;> omega
  have htake : (if outWidth = 0 then str else str.take outWidth) = str.take sourceLen := by
    rw [hsource]
    split_ifs with h0 h1 h1
    · exact (List.take_length).symm
    · exact absurd (.inl h0) h1
    · rw [List.take_length, List.take_of_length_le]
      omega
    · rfl
  have hspace : (if inWidth = 0 ∨ inWidth ≤ sourceLen then 0 else inWidth - sourceLen)
      = inWidth - sourceLen := by
    split <;> omega
  have hlength : (str.take sourceLen).length = sourceLen := by
    rw [List.length_take, min_eq_left hle]
  unfold zlogBufAdjustAppend unlessNull adjusted
  dsimp only
  rw [← hsource, hspace, htake, hlength, if_neg (by rw [h.text_eq]; simp)]
  cases leftAdjust with
  | true =>
      simp only [if_true]
      refine emit_emitted h w fun left hleft => ?_
      rw [List.length_append, List.length_replicate, hlength] at hleft
      rcases lt_or_ge sourceLen left with hlt | hge
      · rw [if_pos hlt, take_append_of_length_le (by omega), hlength, List.take_replicate,
          min_eq_left (by omega)]
      · rw [if_neg (by omega), memcpy_of_le (by omega),
          List.take_append_of_le_length (by omega), List.take_take, min_eq_left (by omega)]
  | false =>
      simp only [Bool.false_eq_true, if_false]
      refine emit_emitted h w fun left hleft => ?_
      rw [List.length_append, List.length_replicate, hlength] at hleft
      rcases lt_or_ge (inWidth - sourceLen) left with hlt | hge
      · rw [if_pos hlt, memcpy_of_le (by omega), Option.map_some,
          take_append_of_length_le (by rw [List.length_replicate]; omega), List.length_replicate,
          List.take_take, min_eq_left (by omega)]
      · rw [if_neg (by omega), List.take_append_of_le_length (by rw [List.length_replicate]; omega),
          List.take_replicate, min_eq_left (by omega)]

theorem zlogBufVprintf_emitted {aBuf : ZlogBuf} {text : Text} (h : aBuf.Holds text)
    (printed : Text) (w : World) :
    ∃ rc aBuf' w', zlogBufVprintf (some printed) aBuf w = some (rc, aBuf', w')
      ∧ Emitted printed text aBuf w rc aBuf' w' := by
  unfold zlogBufVprintf unlessNull
  rw [if_neg (by rw [h.text_eq]; simp)]
  exact emit_emitted h w fun left _ => rfl

/-- Dividing with 32 bits gives the same digits. -/
theorem dec64_digits (ui64 : UInt64) :
    (if ui64 ≤ 0xffffffff then decLoop ui64.toUInt32.toNat [] else decLoop ui64.toNat [])
      = Nat.toDigits 10 ui64.toNat := by
  rw [decLoop_eq, decLoop_eq, List.append_nil, List.append_nil]
  split
  · next hle =>
      have hlt : ui64.toNat < 2 ^ 32 := Nat.lt_succ_of_le hle
      rw [UInt64.toNat_toUInt32, Nat.mod_eq_of_lt hlt]
  · rfl

/-- **Every operation appends its piece.** -/
theorem BufOp.exec_emitted {aBuf : ZlogBuf} {text : Text} (h : aBuf.Holds text) (op : BufOp)
    (w : World) :
    ∃ rc aBuf' w', op.exec aBuf w = some (rc, aBuf', w')
      ∧ Emitted op.piece text aBuf w rc aBuf' w' := by
  cases op with
  | append str => exact emit_emitted h w fun left hleft => memcpy_of_le (Nat.le_of_lt hleft)
  | vprintf printed => exact zlogBufVprintf_emitted h printed w
  | dec32 ui32 width =>
      have hdigits : decLoop ui32.toNat [] = Nat.toDigits 10 ui32.toNat := by
        rw [decLoop_eq, List.append_nil]
      exact zlogBufPrintfNumber_emitted h hdigits width w
  | dec64 ui64 width => exact zlogBufPrintfNumber_emitted h (dec64_digits ui64) width w
  | hex ui32 width =>
      have hdigits : hexLoop ui32.toNat [] = Nat.toDigits 16 ui32.toNat := by
        rw [hexLoop_eq, List.append_nil]
      exact zlogBufPrintfNumber_emitted h hdigits width w
  | adjustAppend str leftAdjust zeroPad inWidth outWidth =>
      exact zlogBufAdjustAppend_emitted h str leftAdjust zeroPad inWidth outWidth w

/-! ## Runs -/

end CLogTest.Zlog
