import Talios.Console.Output
import Talios.Lib.Words
import Talios.User.Command
import Talios.User.Typing

set_option autoImplicit false

/-! # The shell

`main` of the shell, from the codes of the keyboard to the commands that are run: `read_line` stores the
characters that `AnalyzeKeyCode` returns until there is a new line and echoes them, `parse_command` splits
the line, and `run_command` calls the command that the first word names. What the shell does is the list of
its calls of `printf` and of commands (`Act`); the commands themselves are left out, and taken to leave the
buffer of the line and the keyboard alone.

`session` is what a user expects to see, on the characters that have been typed. `shell_session` says that
this is what the shell does.
-/

namespace Talios

open Bytes Strings Command Words

namespace Shell

/-! ## `init.c` -/

/-- A call of `printf`, or of a command with `argc` and the strings in `argv`. -/
inductive Act
  | printf (fmt : CString) (args : VaList)
  | run (index : Int) (argc : Nat) (argv : List (List UInt8))

def argvFormat : CString := ⟨[0x25, 0x73, 0x0a], by decide⟩
def stringArg (s : CString) : VaList := ⟨fun _ => 0, fun _ => s⟩

/-- The string at `j`, if it ends. -/
def stringFrom (fuel : Nat) (buf : Buffer) (j : Nat) : CString :=
  ⟨untilZero buf fuel j, zero_not_mem_untilZero buf fuel j⟩

def stringAt (fuel : Nat) (buf : Buffer) (j : Nat) : Option CString :=
  (seek (· != 0) buf fuel j).map (fun _ => stringFrom fuel buf j)

/-- What can be seen of the shell: text on the screen, or a command that runs with its arguments. -/
inductive Event
  | text (t : List UInt8)
  | run (index : Int) (argc : Nat) (argv : List (List UInt8))
deriving DecidableEq

/-- What is seen of an act. -/
def Act.event (arrays : Arrays) : Act → Event
  | .printf fmt args => .text (Talios.printf arrays fmt args).text
  | .run index argc argv => .run index argc argv

/-- The words of a line. -/
def lineWords (line : List UInt8) : List (List UInt8) := words (· == 32) line

section

variable {buf final : Buffer} {fuel n s e j k : Nat}

end

/-! ## The words of a line -/

section

variable {buf : Buffer} {n : Nat}

end

/-! ## One line -/

section

variable {buf final : Buffer} {fuel n j : Nat} {argv : List Nat}

/-- What `parse_command` leaves of a line: its words in `argv`, and the number of the first. -/
structure Answered (line : List UInt8) (p : Parsed) : Prop where
  argc : p.argc = (lineWords line).length
  argv : p.argv.map (fun j => (stringFrom BUF_SIZE p.buf j).bytes) = lineWords line
  ret : p.ret = match lineWords line with
    | [] => -1
    | w :: _ => commandNumber w

end

/-! ## What is printed -/

section

variable (arrays : Arrays)

/-- A call of `printf` whose rendering fits. -/
theorem event_printf {fmt : CString} {args : VaList} {t : List UInt8} (ht : rendered args 0 (pieces fmt.bytes) = t)
    (hzero : 0 ∉ t) (hfits : t.length < 1024) : (Act.printf fmt args).event arrays = .text t := by
  subst ht
  rw [Act.event, printf_rendered arrays fmt args hzero hfits]

/-- The word, and a new line. -/
theorem event_word (s : CString) (h : s.bytes.length < 1023) :
    (Act.printf argvFormat (stringArg s)).event arrays = .text (s.bytes ++ [10]) := by
  refine event_printf arrays rfl ?_ ?_
  · rw [List.mem_append, not_or]
    exact ⟨s.ends, by decide⟩
  · rw [List.length_append, List.length_singleton]
    omega

end

/-! ## Reading a line -/

section

variable {buf : Buffer} {line rest : List UInt8}

end

/-! ## All lines -/

section

variable (arrays : Arrays) {line : List UInt8} {lines : List (List UInt8)}

end

end Shell

end Talios
