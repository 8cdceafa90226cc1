import ChipEight.Bank
import ChipEight.Digit

/-!
# The keyboard

Sixteen keys of the keyboard are the keys of the machine (`padLayout`), and a few
others are hotkeys of the console.  Keys are told apart by where they are, not by
what is printed on them.
-/

namespace ChipEight

/-- A key of the keyboard, by the name of its place. -/
structure KeyCode where
  name : String
deriving DecidableEq, Repr

/-- The keys of the machine, key 0 first. -/
def padLayout : Bank KeyCode 16 :=
  #v[⟨"KeyX"⟩, ⟨"Digit1"⟩, ⟨"Digit2"⟩, ⟨"Digit3"⟩,
    ⟨"KeyQ"⟩, ⟨"KeyW"⟩, ⟨"KeyE"⟩, ⟨"KeyA"⟩,
    ⟨"KeyS"⟩, ⟨"KeyD"⟩, ⟨"KeyZ"⟩, ⟨"KeyC"⟩,
    ⟨"Digit4"⟩, ⟨"KeyR"⟩, ⟨"KeyF"⟩, ⟨"KeyV"⟩]

def KeyCode.digit? (code : KeyCode) : Option Digit :=
  Digit.all.find? fun k => padLayout.get k == code

/-- What a hotkey does. -/
inductive Hotkey where
  | save
  | restore
  | reload
  | faster
  | slower
deriving DecidableEq, Repr

def KeyCode.hotkey? (code : KeyCode) : Option Hotkey :=
  match code.name with
  | "F5" => some .save
  | "F9" => some .restore
  | "Backspace" => some .reload
  | "Equal" | "NumpadAdd" => some .faster
  | "Minus" | "NumpadSubtract" => some .slower
  | _ => none

/-- Every key of the machine is found at its place. -/
theorem digit?_padLayout (k : Digit) : (padLayout.get k).digit? = some k := by
  revert k; decide +kernel

end ChipEight
