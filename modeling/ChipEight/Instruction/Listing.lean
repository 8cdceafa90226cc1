import ChipEight.Instruction

/-!
# Listing instructions

A listed instruction is its mnemonic and its operands, each under a field name.
`Instruction.listing` joins them to the text of the execution trace.
-/

namespace ChipEight

/-- A listed operand. -/
inductive Operand where
  /-- A register, a key or a row count. -/
  | digit (d : Digit)
  | number (n : Nat)
  /-- A named operation. -/
  | name (s : String)
deriving DecidableEq, Repr

def Arithmetic.mnemonic : Arithmetic → String
  | .set => "Set"
  | .or => "Or"
  | .and => "And"
  | .xor => "Xor"
  | .add => "Add"
  | .sub => "Sub"
  | .shiftRight => "ShiftRight"
  | .subFrom => "SubReverse"
  | .shiftLeft => "ShiftLeft"

/-! ## Mnemonics and operands -/

namespace Condition

def mnemonic : Condition → String
  | .byteEqual .. => "SkipRegEqualImm"
  | .byteDiffers .. => "SkipRegNotEqualImm"
  | .registersEqual .. => "SkipRegEqualReg"
  | .registersDiffer .. => "SkipRegNotEqualReg"
  | .pressed _ => "SkipIfPressed"
  | .released _ => "SkipIfNotPressed"

def operands : Condition → List (String × Operand)
  | .byteEqual x nn | .byteDiffers x nn => [("x", .digit x), ("nn", .number nn.toNat)]
  | .registersEqual x y | .registersDiffer x y => [("x", .digit x), ("y", .digit y)]
  | .pressed x | .released x => [("x", .digit x)]

end Condition

namespace Flow

def mnemonic : Flow → String
  | .jump _ => "Jump"
  | .jumpOffset _ => "JumpWithOffset"
  | .call _ => "Call"
  | .ret => "Return"
  | .skip c => c.mnemonic

def operands : Flow → List (String × Operand)
  | .jump nnn | .jumpOffset nnn | .call nnn => [("nnn", .number nnn.toNat)]
  | .ret => []
  | .skip c => c.operands

end Flow

namespace Action

def mnemonic : Action → String
  | .clearScreen => "ClearDisplay"
  | .setRegister .. => "SetRegImm"
  | .addToRegister .. => "AddRegImm"
  | .arithmetic .. => "ALU"
  | .random .. => "Random"
  | .setIndex _ => "SetIndexImm"
  | .addToIndex _ => "AddIndexReg"
  | .draw .. => "Draw"
  | .awaitKey _ => "WaitForKey"
  | .readDelay _ => "ReadDelayTimer"
  | .setDelay _ => "SetDelayTimer"
  | .setSound _ => "SetSoundTimer"
  | .glyph _ => "FontChar"
  | .decimal _ => "BCD"
  | .store _ => "StoreRegs"
  | .load _ => "LoadRegs"

def operands : Action → List (String × Operand)
  | .clearScreen => []
  | .setRegister x nn | .addToRegister x nn | .random x nn =>
      [("x", .digit x), ("nn", .number nn.toNat)]
  | .arithmetic op x y => [("x", .digit x), ("y", .digit y), ("op", .name op.mnemonic)]
  | .setIndex nnn => [("nnn", .number nnn.toNat)]
  | .draw x y n => [("x", .digit x), ("y", .digit y), ("n", .digit n)]
  | .addToIndex x | .awaitKey x | .readDelay x | .setDelay x | .setSound x | .glyph x
  | .decimal x | .store x | .load x => [("x", .digit x)]

end Action

namespace Instruction

def mnemonic : Instruction → String
  | .flow f => f.mnemonic
  | .act a => a.mnemonic
  | .unknown _ => "Unknown"

/-- The operands of an instruction, in the order they are listed.  The word of
an unknown instruction has no field name. -/
def operands : Instruction → List (String × Operand)
  | .flow f => f.operands
  | .act a => a.operands
  | .unknown w => [("", .number w.toNat)]

end Instruction

/-! ## The text of the trace -/

/-- An operand in the trace.  A digit is marked as four bits wide. -/
def Operand.text : Operand → String
  | .digit d => "u4(" ++ toString d.val ++ ")"
  | .number n => toString n
  | .name s => s

/-- An instruction in the trace: its mnemonic, then its operands in braces. -/
def Instruction.listing : Instruction → String
  | .unknown w => "Unknown(" ++ toString w.toNat ++ ")"
  | i =>
      match i.operands with
      | [] => i.mnemonic
      | ops =>
          let fields := ops.map fun (name, value) => name ++ ": " ++ value.text
          i.mnemonic ++ " \x7b " ++ ", ".intercalate fields ++ " \x7d"

/-! ## Tests -/

example : (Instruction.act (.setRegister 10 43)).listing = "SetRegImm \x7b x: u4(10), nn: 43 \x7d" := by
  cbv
example : (Instruction.act (.arithmetic .add 1 2)).listing
    = "ALU \x7b x: u4(1), y: u4(2), op: Add \x7d" := by cbv
example : (Instruction.flow .ret).listing = "Return" := by cbv
example : (Instruction.unknown 291).listing = "Unknown(291)" := by cbv

end ChipEight
