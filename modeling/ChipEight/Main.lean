import ChipEight.Console.Turn

/-!
# The program

A console in a terminal, without a keyboard.  The program to be run is read from
standard input; its path on the command line only says where the state file is.
Each picture that differs from the one before is printed, and what is reported
goes to standard error.

All that happens is a `Console.turn`; this module reads, waits and prints.  Without
a keyboard nothing is saved, so no file is touched.
-/

namespace ChipEight

def usage : String :=
  "usage: chipeight PATH [--cycles-per-tick N] [--state-file PATH] [--seed N] < PROGRAM"

/-- The key that bytes spell, four to a word and the low byte first. -/
def streamKeyOfBytes (bytes : List UInt8) : StreamKey :=
  Vector.ofFn fun k =>
    (List.range 4).foldr (fun j w => w * 256 + (bytes.getD (4 * k.val + j) 0).toUInt32) 0

/-- A frame as lines of text.  A pixel that is at least half bright is a block. -/
def Frame.picture (f : Frame) : String :=
  let pixels := f.toList.map fun c => if 0x80 ≤ c.alpha then '█' else ' '
  let lines := (List.range screenHeight).map fun y =>
    String.ofList ((pixels.drop (y * screenWidth)).take screenWidth)
  "\n".intercalate lines

def Console.picture (c : Console Shelf) : String :=
  match c.surface with
  | none => ""
  | some s => s.frame.picture

partial def readAll (input : IO.FS.Stream) (read : ByteArray) : IO ByteArray := do
  let more ← input.read 4096
  if more.isEmpty then return read else readAll input (read ++ more)

/-- Run frame after frame, until the console asks to end. -/
partial def play (c : Console Shelf) (shown : String) : IO (Console Shelf) := do
  if 0 < c.exits then return c
  let t := c.turn (.frame timeStep)
  for r in t.reports do IO.eprintln r.line
  let picture := t.console.picture
  if picture ≠ shown then
    (← IO.getStdout).putStrLn picture
    (← IO.getStdout).flush
  IO.sleep 16
  play t.console picture

/-- Start a console and run it.  The exit code is 0 if help was asked for, 2 if
the command line starts nothing, and 1 if the console fails. -/
def runCommand (words : List String) : IO UInt32 := do
  match Options.parse words with
  | .error .help =>
      IO.println usage
      return 0
  | .error _ =>
      IO.eprintln usage
      return 2
  | .ok options =>
      let program ← readAll (← IO.getStdin) .empty
      let entropy := streamKeyOfBytes (← IO.getRandomBytes 32).toList
      match Console.start options program.toList ⟨[], entropy, Shelf.empty⟩ with
      | .error cause =>
          IO.eprintln cause.message
          return 1
      | .ok c =>
          let c ← play (c.react .resumed) ""
          match c.failure with
          | none => return 0
          | some failure =>
              IO.eprintln failure.message
              return 1

end ChipEight

def main (words : List String) : IO UInt32 := ChipEight.runCommand words
