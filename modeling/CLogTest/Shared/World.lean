import Mathlib.Data.Int.Notation
import Mathlib.Data.List.Basic

set_option autoImplicit false

/-! # The environment of a run

What a test program asks of the operating system and what it leaves behind. The answers are an
oracle indexed by the number of the call, so that a call may succeed now and fail later; what is
written is kept in order. A logging library is a state transformer on its static variables and a
`World`. -/

namespace CLogTest

/-- A message that reached a file or a stream: where it went, the level marker the library puts in
    front of it and the formatted text. Time, thread and source location are left out. -/
structure Message where
  file : String
  marker : String
  payload : String

/-- The environment of a run. -/
structure World where
  /-- Does the call with this number succeed? -/
  succeeds : ℕ → Bool
  /-- The number that the call with this number answers, where it answers with one. -/
  number : ℕ → ℕ
  /-- The local date, as `%04d-%02d-%02d`, when the call with this number is made. -/
  date : ℕ → String
  /-- The number of calls made so far. -/
  calls : ℕ
  /-- What was written so far. -/
  written : List Message
  /-- The complaints printed so far. -/
  complaints : List String

namespace World

/-- A call that may fail. Calls whose result is ignored (`fclose`, `fflush`) are left out. -/
def attempt (w : World) : Bool × World := (w.succeeds w.calls, { w with calls := w.calls + 1 })

/-- A call that answers with a number. -/
def ask (w : World) : ℕ × World := (w.number w.calls, { w with calls := w.calls + 1 })

/-- `fprintf` of text around a message: the number of bytes written, if it succeeds. -/
def print (w : World) : Option ℕ × World :=
  (if w.succeeds w.calls then some (w.number w.calls) else none, { w with calls := w.calls + 1 })

/-- `fprintf`, `fwrite` or `write` of a message: the number of bytes written, if it succeeds. -/
def printMessage (msg : Message) (w : World) : Option ℕ × World :=
  if w.succeeds w.calls then
    (some (w.number w.calls), { w with calls := w.calls + 1, written := w.written ++ [msg] })
  else (none, { w with calls := w.calls + 1 })

/-- A complaint, on `stderr` or `stdout`. -/
def complain (text : String) (w : World) : World := { w with complaints := w.complaints ++ [text] }

/-- The texts that were written, in order. -/
def payloads (w : World) : List String := w.written.map Message.payload

/-- Every call succeeds. -/
def Reliable (w : World) : Prop := ∀ k, w.succeeds k = true

/-- An environment in which every call succeeds and nothing is written yet. -/
def faultless : World := ⟨fun _ => true, fun _ => 0, fun _ => "", 0, [], []⟩

theorem faultless_reliable : faultless.Reliable := fun _ => rfl

theorem attempt_of_reliable {w : World} (hw : w.Reliable) : w.attempt.1 = true := hw w.calls

/-- In a reliable environment a message is written. -/
theorem printMessage_of_reliable (msg : Message) {w : World} (hw : w.Reliable) :
    (w.printMessage msg).1.isSome = true ∧ (w.printMessage msg).2.Reliable
      ∧ (w.printMessage msg).2.payloads = w.payloads ++ [msg.payload] := by
  have h : w.succeeds w.calls = true := hw w.calls
  unfold printMessage
  rw [if_pos h]
  refine ⟨rfl, hw, ?_⟩
  unfold payloads
  rw [List.map_append, List.map_singleton]

/-! ## Silent steps -/

/-- `w'` is reached from `w` without writing a message. -/
structure Silent (w w' : World) : Prop where
  reliable : w.Reliable → w'.Reliable
  payloads : w'.payloads = w.payloads

theorem Silent.refl (w : World) : w.Silent w := ⟨id, rfl⟩

theorem Silent.trans {w w' w'' : World} (h : w.Silent w') (h' : w'.Silent w'') : w.Silent w'' :=
  ⟨fun hw => h'.reliable (h.reliable hw), h'.payloads.trans h.payloads⟩

theorem attempt_silent (w : World) : w.Silent w.attempt.2 := ⟨id, rfl⟩

theorem ask_silent (w : World) : w.Silent w.ask.2 := ⟨id, rfl⟩

theorem print_silent (w : World) : w.Silent w.print.2 := ⟨id, rfl⟩

theorem complain_silent (text : String) (w : World) : w.Silent (w.complain text) := ⟨id, rfl⟩

/-- Text around a message does not disturb it. -/
theorem printMessage_between (msg : Message) {w : World} (hw : w.Reliable) :
    (w.print.2.printMessage msg).2.print.2.Reliable
      ∧ (w.print.2.printMessage msg).2.print.2.payloads = w.payloads ++ [msg.payload] := by
  obtain ⟨-, hrel, hwritten⟩ := printMessage_of_reliable msg (w.print_silent.reliable hw)
  have hafter := print_silent (w.print.2.printMessage msg).2
  refine ⟨hafter.reliable hrel, ?_⟩
  rw [hafter.payloads, hwritten, w.print_silent.payloads]

end World

/-! ## Command line -/

/-- `isspace` in the C locale. -/
def isSpace (c : Char) : Bool :=
  c = ' ' ∨ c = '\t' ∨ c = '\n' ∨ c = Char.ofNat 11 ∨ c = Char.ofNat 12 ∨ c = '\r'

/-- The value of the leading decimal digits. -/
def digitsValue (s : List Char) : ℤ :=
  (s.takeWhile Char.isDigit).foldl (fun v c => 10 * v + (c.toNat - '0'.toNat : ℤ)) 0

/-- `atoi`. The value is not bounded: out of the range of `int` it is undefined in C. -/
def atoi (s : List Char) : ℤ :=
  match s.dropWhile isSpace with
  | '-' :: ds => -digitsValue ds
  | '+' :: ds => digitsValue ds
  | ds => digitsValue ds

/-- `(argc == 1) ? 0 : (uint8_t)atoi(argv[1])`, with `argv` the name of the program and its
    arguments. -/
def argLevel : List (List Char) → UInt8
  | _ :: arg :: _ => UInt8.ofInt (atoi arg)
  | _ => 0

/-- The command line that passes a log level in decimal. -/
def levelArgs (prog : List Char) (level : ℕ) : List (List Char) := [prog, Nat.toDigits 10 level]

/-- The documented log levels arrive as they were passed. -/
theorem argLevel_levelArgs (prog : List Char) {level : ℕ} (h : level ≤ 5) :
    argLevel (levelArgs prog level) = UInt8.ofNat level := by
  have hall : ∀ k < 6, UInt8.ofInt (atoi (Nat.toDigits 10 k)) = UInt8.ofNat k := by decide
  exact hall level (Nat.lt_succ_of_le h)

/-- The text logged by an activation, formatted by `"A(%u, %u)"`. -/
def payload (m n : UInt32) : String :=
  "A(" ++ toString m.toNat ++ ", " ++ toString n.toNat ++ ")"

end CLogTest
