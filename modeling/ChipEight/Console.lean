import ChipEight.CommandLine
import ChipEight.Console.Keyboard
import ChipEight.Console.Phosphor
import ChipEight.Notice
import ChipEight.StateFile

/-!
# The console

A console is a machine with a window, a keyboard, a speaker and a state file.
Its window and its drawing surface are records of what was asked of them, and
each device may be broken, so that whatever uses it fails.  The state file lies in
some file system, and a `Console D` holds what there is of its files, a `D`.

This module holds the parts of a console, the ways it can fail, and its start.
What is there before it starts are its `Surroundings`: the devices, the files, and
a key for the random bytes, which is used if no seed is asked for.  What a console
does when something happens is in `ChipEight.Console.Turn`.
-/

namespace ChipEight

/-! ## Devices -/

/-- What a console needs from its surroundings. -/
inductive Device where
  | audio
  | window
  | surface
  | render
  | resize
deriving DecidableEq, Repr

/-- A window that was created. -/
structure Window where
  /-- How often it was asked to be drawn anew. -/
  redrawRequests : Nat
deriving DecidableEq, Repr

namespace Window

def title : String := "chip8-vm"

def size : Nat × Nat := (screenWidth * 10, screenHeight * 10)

def minSize : Nat × Nat := (screenWidth, screenHeight)

def requestRedraw (w : Window) : Window := ⟨w.redrawRequests + 1⟩

end Window

structure Surface where
  width : Nat
  height : Nat
  frame : Frame
  /-- How often its frame was shown. -/
  renders : Nat
deriving DecidableEq

/-! ## Failures -/

/-- What every broken device answers. -/
def deviceMessage : String := "unavailable"

/-- Why a console did not start. -/
inductive StartFailure where
  | audio
  | program (cause : Oversize)
deriving DecidableEq, Repr

def StartFailure.message : StartFailure → String
  | .audio => "Failed to open audio output stream: " ++ deviceMessage
  | .program cause => "Failed to load ROM into CHIP-8 memory: " ++ cause.message

/-- What makes a console give up. -/
inductive Failure where
  | window
  | surface
  | resize
  | render
  /-- The program does something it must not. -/
  | execution (cause : Fault)
deriving DecidableEq, Repr

def Failure.message : Failure → String
  | .window => "Failed to create window: " ++ deviceMessage
  | .surface => "Failed to create pixels surface: " ++ deviceMessage
  | .resize => "Failed to resize pixels surface: " ++ deviceMessage
  | .render => "Pixels render error: " ++ deviceMessage
  | .execution cause => "Chip8 Execution error: " ++ cause.message

/-- Why a hotkey had no effect.  The program goes on. -/
inductive HotkeyFailure where
  | write (path : String) (cause : FileFault)
  | read (path : String) (cause : FileFault)
  | restore (cause : Corruption)
  | reload (cause : Oversize)
deriving DecidableEq, Repr

def HotkeyFailure.message : HotkeyFailure → String
  | .write path cause => "Failed to write save state to " ++ path ++ ": " ++ cause.message
  | .read path cause => "Failed to read save state from " ++ path ++ ": " ++ cause.message
  | .restore cause => "Failed to restore save state: " ++ cause.message
  | .reload cause => "Failed to reload ROM: " ++ cause.message

/-! ## The console -/

/-- What a console finds when it starts. -/
structure Surroundings (D : Type) where
  broken : List Device
  /-- A key for the random bytes that nobody chose. -/
  entropy : StreamKey
  disk : D

structure Console (D : Type) where
  pacer : Pacer
  /-- The program, to be loaded again. -/
  program : List UInt8
  /-- Where the state file is. -/
  statePath : String
  glow : Glow
  /-- Set when the surface lost its contents. -/
  dirty : Bool
  playing : Bool
  window : Option Window
  surface : Option Surface
  /-- Why the console gave up last. -/
  failure : Option Failure
  /-- How often the event loop was asked to end. -/
  exits : Nat
  broken : List Device
  disk : D

/-- The key of the random bytes: that of the seed, if one is asked for. -/
def Options.streamKey (o : Options) (entropy : StreamKey) : StreamKey :=
  match o.seed with
  | some seed => Keystream.seedKey seed
  | none => entropy

namespace Console

variable {D : Type}

/-- The tone of the speaker: its frequency and its gain. -/
def tone : Float32 × Float32 := (440.0, 0.5)

/-- Start a console with a program, before it has a window. -/
def start (o : Options) (program : List UInt8) (around : Surroundings D) :
    Except StartFailure (Console D) :=
  if .audio ∈ around.broken then .error .audio
  else
    match (Machine.boot (Keystream.ofKey (o.streamKey around.entropy))).load program with
    | .error cause => .error (.program cause)
    | .ok machine =>
        .ok {
          pacer := Pacer.start machine o.rate
          program
          statePath := o.stateFile.getD (StateFile.defaultPath o.programPath)
          glow := Glow.dark
          dirty := true
          playing := false
          window := none
          surface := none
          failure := none
          exits := 0
          broken := around.broken
          disk := around.disk }

def machine (c : Console D) : Machine := c.pacer.machine

def setMachine (c : Console D) (m : Machine) : Console D :=
  { c with pacer := { c.pacer with machine := m } }

end Console

end ChipEight
