import ChipEight.Console

/-!
# Events

`Console.turn` says what a console does when something happens: the console
afterwards, what failed, and what is reported.  `Console.react` is the console
alone, with its failure noted.

A hotkey never fails an event.  One that has no effect is reported, and the console
is the one that its work left until then (`Console.hotkey`).
-/

namespace ChipEight

/-! ## What happens -/

structure KeyEvent where
  /-- Where the key is, if that is known. -/
  code : Option KeyCode
  down : Bool
  /-- Does the key mean escape, wherever it is? -/
  escape : Bool
  /-- Is the key held and reported once more? -/
  again : Bool
deriving DecidableEq, Repr

/-- What happens to a console. -/
inductive Event where
  /-- A window may be created now. -/
  | resumed
  | closeRequested
  | resized (width height : Nat)
  | key (e : KeyEvent)
  /-- A frame is due, so many seconds after the one before. -/
  | frame (seconds : Float32)
  /-- Something a console has no use for. -/
  | other
deriving DecidableEq

/-! ## Reports -/

inductive Report where
  | pacer (n : Notice)
  | stateSaved (path : String)
  | stateLoaded (path : String)
  | rateChanged (rate : Nat)
  | hotkeyFailed (cause : HotkeyFailure)
deriving DecidableEq

namespace Report

def level : Report → Level
  | .pacer n => n.level
  | .hotkeyFailed _ => .error
  | _ => .info

/-- Cycles in a second at a rate, rounded in single precision. -/
def hertz (rate : Nat) : Float32 := (UInt32.ofNat rate).toFloat32 * ticksPerSecond

def text : Report → String
  | .pacer n => n.text
  | .stateSaved path => "saved state to " ++ path
  | .stateLoaded path => "loaded state from " ++ path
  | .rateChanged rate =>
      "clock rate: " ++ toString rate ++ " cycles per tick (" ++
        Binary32.shortestText (hertz rate) ++ " Hz)"
  | .hotkeyFailed cause => cause.message

def line (r : Report) : String := r.level.text ++ " " ++ r.text

end Report

/-- What comes of an event. -/
structure Turn (D : Type) where
  console : Console D
  /-- What failed. -/
  failure : Option Failure := none
  reports : List Report := []

namespace Console

variable {D : Type}

def isBroken (c : Console D) (d : Device) : Bool := c.broken.contains d

def exit (c : Console D) : Console D := { c with exits := c.exits + 1 }

/-! ## Windows -/

def requestRedraw (c : Console D) : Console D :=
  { c with window := c.window.map Window.requestRedraw }

/-- Create a window and a surface in it.  A surface that cannot be created leaves
the one before. -/
def resume (c : Console D) : Turn D :=
  if c.isBroken .window then { console := c, failure := some .window }
  else
    let c := { c with window := some ⟨0⟩ }
    if c.isBroken .surface then { console := c, failure := some .surface }
    else
      let surface := ⟨Window.size.1, Window.size.2, Frame.clear, 0⟩
      { console := { c with surface := some surface }.requestRedraw }

/-- Give the surface a new size, if there is one.  Neither side may be zero. -/
def resize (c : Console D) (width height : Nat) : Turn D :=
  match c.surface with
  | none => { console := c }
  | some s =>
      if c.isBroken .resize ∨ width = 0 ∨ height = 0 then
        { console := c, failure := some .resize }
      else
        { console := { c with surface := some { s with width, height }, dirty := true } }

/-! ## Frames -/

/-- Paint the frame if something on it may have changed.  The answer tells
whether it was painted. -/
def paint (c : Console D) (seconds : Float32) : Bool × Console D :=
  if c.machine.redraw || c.glow.isFading || c.dirty then
    match c.surface with
    | none => (false, c)
    | some s =>
        let glow := c.glow.decay c.machine.screen seconds
        let painted := { c with glow, surface := some { s with frame := glow.frame }, dirty := false }
        (true, painted.setMachine c.machine.clearRedraw)
  else (false, c)

/-- Show the frame, if there is a surface.  The answer tells whether it failed. -/
def render (c : Console D) : Option Failure × Console D :=
  match c.surface with
  | none => (none, c)
  | some s =>
      if c.isBroken .render then (some .render, c)
      else (none, { c with surface := some { s with renders := s.renders + 1 } })

/-- Let the speaker sound if tones were asked for. -/
def playTones (c : Console D) : Console D :=
  let (tones, m) := c.machine.takeTones
  { c.setMachine m with playing := 0 < tones }

/-- Run the machine, sound, paint and show.  A failure leaves out the rest. -/
def frame (c : Console D) (seconds : Float32) : Turn D :=
  match c.pacer.update seconds with
  | (.error cause, pacer) =>
      { console := { c with pacer }
        failure := some (.execution cause)
        reports := [.pacer (.cycleFailed cause)] }
  | (.ok _, pacer) =>
      let c := { c with pacer }.playTones
      match c.paint seconds with
      | (false, c) => { console := c.requestRedraw }
      | (true, c) =>
          match c.render with
          | (some failure, c) => { console := c, failure := some failure }
          | (none, c) => { console := c.requestRedraw }

/-! ## Keys -/

/-- Cycles in a tick that one press of a rate key adds or removes. -/
def rateStep : Int := 2

def changeRate (c : Console D) (delta : Int) : Except HotkeyFailure (List Report) × Console D :=
  let pacer := c.pacer.adjustRate delta
  (.ok [.rateChanged pacer.rate], { c with pacer })

variable [FileSystem D]

/-- What a hotkey does.  The answer is what is reported then, or why it had no effect. -/
def hotkey (c : Console D) : Hotkey → Except HotkeyFailure (List Report) × Console D
  | .save =>
      match FileSystem.write c.disk c.statePath c.machine.save with
      | (.error cause, disk) => (.error (.write c.statePath cause), { c with disk })
      | (.ok _, disk) => (.ok [.stateSaved c.statePath], { c with disk })
  | .restore =>
      match FileSystem.read c.disk c.statePath with
      | .error cause => (.error (.read c.statePath cause), c)
      | .ok text =>
          match (Procedure.restore text).run c.machine with
          | .error cause machine => (.error (.restore cause), c.setMachine machine)
          | .ok _ machine => (.ok [.stateLoaded c.statePath], c.setMachine machine)
  | .reload =>
      match c.pacer.runLoad c.program with
      | (.error cause, pacer) => (.error (.reload cause), { c with pacer })
      | (.ok _, pacer) => (.ok [], { c with pacer })
  | .faster => c.changeRate rateStep
  | .slower => c.changeRate (-rateStep)

/-- Press a hotkey.  One that has no effect is reported. -/
def pressHotkey (c : Console D) (h : Hotkey) : Turn D :=
  match c.hotkey h with
  | (.ok reports, console) => { console, reports }
  | (.error cause, console) => { console, reports := [.hotkeyFailed cause] }

/-- A key that does not mean escape.  The keys of the machine go down and up; any
other key that goes down for the first time may be a hotkey. -/
def pressKey (c : Console D) (e : KeyEvent) : Turn D :=
  match e.code with
  | none => { console := c }
  | some code =>
      match code.digit? with
      | some k => { console := { c with pacer := c.pacer.setKey k e.down } }
      | none =>
          match code.hotkey? with
          | some h => if e.down ∧ e.again = false then c.pressHotkey h else { console := c }
          | none => { console := c }

/-! ## Turns -/

/-- What comes of an event, before its failure is noted. -/
def handle (c : Console D) : Event → Turn D
  | .resumed => c.resume
  | .closeRequested => { console := c.exit }
  | .resized width height => c.resize width height
  | .key e => if e.escape then { console := c.exit } else c.pressKey e
  | .frame seconds => c.frame seconds
  | .other => { console := c }

/-- What comes of an event.  A failure is noted in the console, and the event
loop is asked to end. -/
def turn (c : Console D) (e : Event) : Turn D :=
  let t := c.handle e
  match t.failure with
  | none => t
  | some failure => { t with console := { t.console with failure := some failure }.exit }

def react (c : Console D) (e : Event) : Console D := (c.turn e).console

end Console

end ChipEight
