import ChipEight.Proofs.Redraw

/-!
# What an instruction touches

A `Part` is a piece of a machine, as small as a byte or a register.  The parts make up the
machine, the program counter and the tones apart (`Machine.eq_of_same`): nearly every
instruction moves the one and may add to the others.

`Instruction.touches` is the footprint of an instruction: of each part it tells whether the
instruction may change it.  The bytes it may change stand at the index, so the footprint
depends on where the index is, and on nothing else in the machine.  Every other part is the
same behind the instruction (`Machine.same_complete`).

Most of the footprint was told before, part by part: who draws, who sets a timer, who takes
a random byte, who waits for a key.  Bytes and registers are added here, where a part is
not a whole field of the machine.
-/

namespace ChipEight

/-- A piece of a machine. -/
inductive Part where
  | byte (address : Nat)
  | register (x : Digit)
  | index
  | stack
  | timer (t : Timer)
  | screen
  | redraw
  | keyWait
  | keypad
  | noise
deriving DecidableEq, Repr

/-- The part is the same in both machines. -/
def Machine.Same (a b : Machine) : Part → Prop
  | .byte address => b.byteAt address = a.byteAt address
  | .register x => b.register x = a.register x
  | .index => b.index = a.index
  | .stack => b.stack = a.stack
  | .timer t => b.timer t = a.timer t
  | .screen => b.screen = a.screen
  | .redraw => b.redraw = a.redraw
  | .keyWait => b.keyWait = a.keyWait
  | .keypad => b.keypad = a.keypad
  | .noise => b.noise = a.noise

/-! ## Footprints -/

/-- True for the operations that have a flag. -/
def Arithmetic.setsFlag : Arithmetic → Bool
  | .set | .or | .and | .xor => false
  | .add | .sub | .shiftRight | .subFrom | .shiftLeft => true

namespace Action

/-- How many bytes an action writes at the index. -/
def bytesWritten : Action → Nat
  | .decimal _ => 3
  | .store x => x.val + 1
  | _ => 0

/-- True for the registers an action may write. -/
def writes (z : Digit) : Action → Bool
  | .setRegister x _ | .addToRegister x _ | .random x _ | .awaitKey x | .readDelay x => z == x
  | .arithmetic op x _ => z == x || (op.setsFlag && z == flagRegister)
  | .draw _ _ _ => z == flagRegister
  | .load x => z ≤ x
  | _ => false

/-- True for the actions that set the index. -/
def setsIndex : Action → Bool
  | .setIndex _ | .addToIndex _ | .glyph _ => true
  | _ => false

end Action

/-- True for calls and returns. -/
def Flow.movesStack : Flow → Bool
  | .call _ | .ret => true
  | _ => false

/-- True for the parts that an instruction may change when the index is `index`. -/
def Instruction.touches (index : Nat) (i : Instruction) (p : Part) : Bool :=
  match p, i with
  | .byte address, .act a => index ≤ address && address < index + a.bytesWritten
  | .register z, .act a => a.writes z
  | .index, .act a => a.setsIndex
  | .stack, .flow f => f.movesStack
  | .timer t, i => (t.source? i).isSome
  | .screen, i | .redraw, i => i.draws
  | .keyWait, i => i.isAwaitKey
  | .noise, i => i.isRandom
  | _, _ => false

namespace Machine

variable {m : Machine}

/-! ## Parts -/

/-- Memories with the same bytes are the same. -/
theorem memory_eq_of_byteAt {a b : Machine} (h : ∀ address, b.byteAt address = a.byteAt address) :
    b.memory = a.memory := by
  apply Bank.ext_get
  intro address
  have hbyte := h address.val
  rwa [byteAt, byteAt, Vector.getElem?_eq_getElem address.isLt,
    Vector.getElem?_eq_getElem address.isLt] at hbyte

/-- The parts are all of a machine but its program counter and its tones. -/
theorem eq_of_same {a b : Machine} (h : ∀ p, a.Same b p) :
    b = { a with pc := b.pc, tones := b.tones } := by
  have hmemory : b.memory = a.memory := memory_eq_of_byteAt fun address => h (.byte address)
  have hregisters : b.registers = a.registers := Bank.ext_get fun x => h (.register x)
  have hindex : b.index = a.index := h .index
  have hstack : b.stack = a.stack := h .stack
  have hdelay : b.delay = a.delay := h (.timer .delay)
  have hsound : b.sound = a.sound := h (.timer .sound)
  have hscreen : b.screen = a.screen := h .screen
  have hredraw : b.redraw = a.redraw := h .redraw
  have hwait : b.keyWait = a.keyWait := h .keyWait
  have hkeypad : b.keypad = a.keypad := h .keypad
  have hnoise : b.noise = a.noise := h .noise
  rw [← hmemory, ← hregisters, ← hindex, ← hstack, ← hdelay, ← hsound, ← hscreen, ← hredraw,
    ← hwait, ← hkeypad, ← hnoise]

/-! ## Bytes -/

/-- Bytes that are stored touch no other address. -/
theorem byteAt_store_of_ne {start address : Nat} {bytes : List UInt8}
    (h : ¬ (start ≤ address ∧ address < start + bytes.length)) :
    (m.store start bytes).byteAt address = m.byteAt address := by
  unfold byteAt store
  by_cases hlt : address < memorySize
  · rw [Vector.getElem?_eq_getElem hlt, Vector.getElem?_eq_getElem hlt, Bank.getElem_write,
      dif_neg (by omega)]
  · rw [Vector.getElem?_eq_none (Nat.le_of_not_lt hlt),
      Vector.getElem?_eq_none (Nat.le_of_not_lt hlt)]

/-- Each byte that is stored has its address behind the first, as far as memory goes. -/
theorem byteAt_store {start k : Nat} {bytes : List UInt8} (hk : k < bytes.length)
    (hfits : start + k < memorySize) :
    (m.store start bytes).byteAt (start + k) = bytes.get ⟨k, hk⟩ := by
  have hsub : start + k - start = k := Nat.add_sub_cancel_left start k
  rw [byteAt, store, Vector.getElem?_eq_getElem hfits, Option.getD_some, Bank.getElem_write,
    dif_pos ⟨Nat.le_add_right start k, hsub.symm ▸ hk⟩]
  simp only [hsub]

theorem perform_byteAt {a : Action} {address : Nat}
    (h : ¬ (m.index.toNat ≤ address ∧ address < m.index.toNat + a.bytesWritten)) :
    (m.perform a).2.byteAt address = m.byteAt address := by
  cases a with
  | decimal x => exact byteAt_store_of_ne h
  | store x =>
      refine byteAt_store_of_ne ?_
      have hlength : (m.registers.toList.take (x.val + 1)).length = x.val + 1 := by
        rw [List.length_take, Vector.length_toList, Nat.min_eq_left x.isLt]
      rwa [hlength]
  | arithmetic op x y =>
      rw [perform, compute_eq]
      rfl
  | awaitKey x =>
      rw [perform, awaitKey_eq]
      rfl
  | _ => rfl

/-! ## Registers -/

theorem register_setRegister_self (m : Machine) (x : Digit) (b : UInt8) :
    (m.setRegister x b).register x = b := by
  rw [register, setRegister, Bank.get_put, if_pos rfl]

theorem register_setRegister_of_ne {x z : Digit} (h : z ≠ x) (b : UInt8) :
    (m.setRegister x b).register z = m.register z := by
  rw [register, setRegister, Bank.get_put, if_neg h.symm]
  rfl

theorem compute_register {op : Arithmetic} {x y z : Digit} (hx : z ≠ x)
    (hflag : op.setsFlag = true → z ≠ flagRegister) :
    (m.compute op x y).register z = m.register z := by
  cases op with
  | set | or | and | xor => exact register_setRegister_of_ne hx _
  | add | sub | shiftRight | subFrom | shiftLeft =>
      exact (register_setRegister_of_ne (hflag rfl) _).trans (register_setRegister_of_ne hx _)

theorem awaitKey_register {x z : Digit} (h : z ≠ x) :
    (m.awaitKey x).2.register z = m.register z := by
  cases hw : m.keyWait with
  | none => rw [awaitKey_of_none hw]; rfl
  | some before =>
      cases hk : m.changedKey? before with
      | none => rw [awaitKey_of_same hw hk]
      | some k =>
          rw [awaitKey_of_changed hw hk]
          exact register_setRegister_of_ne h _

/-- Registers behind the last one that is loaded are left alone. -/
theorem load_register {x z : Digit} (h : x < z) :
    (m.perform (.load x)).2.register z = m.register z := by
  have hlt : ¬ (0 ≤ z.val ∧ z.val - 0 < (m.bytesFrom m.index.toNat (x.val + 1)).length) := by
    rw [length_bytesFrom]
    have hval : x.val < z.val := h
    omega
  rw [perform, register, Bank.get_eq_getElem, Bank.getElem_write, dif_neg hlt]
  rfl

theorem perform_register {a : Action} {z : Digit} (h : a.writes z = false) :
    (m.perform a).2.register z = m.register z := by
  cases a with
  | setRegister x nn | addToRegister x nn | random x nn | readDelay x =>
      exact register_setRegister_of_ne (by simpa [Action.writes] using h) _
  | arithmetic op x y =>
      simp only [Action.writes, Bool.or_eq_false_iff, Bool.and_eq_false_imp,
        beq_eq_false_iff_ne] at h
      exact compute_register h.1 h.2
  | awaitKey x => exact awaitKey_register (by simpa [Action.writes] using h)
  | draw x y n => exact register_setRegister_of_ne (by simpa [Action.writes] using h) _
  | load x => exact load_register (by simpa [Action.writes] using h)
  | _ => rfl

/-! ## The other parts -/

theorem perform_index {a : Action} (h : a.setsIndex = false) :
    (m.perform a).2.index = m.index := by
  cases a with
  | setIndex nnn | addToIndex x | glyph x => cases h
  | arithmetic op x y => rw [perform, compute_eq]
  | awaitKey x => rw [perform, awaitKey_eq]
  | _ => rfl

theorem same_perform {a : Action} {p : Part}
    (h : (Instruction.act a).touches m.index.toNat p = false) : m.Same (m.perform a).2 p := by
  cases p with
  | byte address => exact perform_byteAt (by simpa [Instruction.touches] using h)
  | register z => exact perform_register h
  | index => exact perform_index h
  | stack => rw [Same, perform_leaves]
  | keypad => rw [Same, perform_leaves]
  | timer t =>
      have hnone : t.source? (.act a) = none := by simpa [Instruction.touches] using h
      exact (effect_timer m t (.act a)).trans (by rw [hnone]; rfl)
  | screen => exact effect_screen h
  | redraw =>
      have hdraws : (Instruction.act a).draws = false := h
      exact (effect_redraw m (.act a)).trans (by rw [hdraws, Bool.or_false])
  | keyWait => exact (effect_keyWait h).1
  | noise =>
      have hrandom : (Instruction.act a).isRandom = false := h
      exact (effect_noise m (.act a)).trans (by rw [hrandom]; rfl)

/-- An instruction leaves every part outside its footprint alone. -/
theorem same_effect {i : Instruction} {p : Part} (h : i.touches m.index.toNat p = false) :
    m.Same (m.effect i).2 p := by
  cases i with
  | act a => exact same_perform h
  | unknown w => cases p <;> rfl
  | flow f =>
      cases f with
      | call nnn | ret =>
          cases p with
          | stack => cases h
          | _ => rfl
      | _ => cases p <;> rfl

theorem same_complete {i : Instruction} {p : Part} (next : UInt16)
    (h : i.touches m.index.toNat p = false) : m.Same (m.complete i next).2 p := by
  rw [complete_eq]
  have hsame := same_effect h
  cases p with
  | timer t => cases t <;> exact hsame
  | _ => exact hsame

/-! ## The program counter -/

/-- Only an instruction that waits for a key stays where it is, and then it changes nothing
but the pending wait. -/
theorem complete_of_awaitingKey {i : Instruction} {next : UInt16}
    (h : (m.complete i next).1 = .awaitingKey) :
    i.isAwaitKey = true ∧
      (m.complete i next).2 =
        { m with
          keyWait := (m.complete i next).2.keyWait
          tones := (m.complete i next).2.tones } := by
  have hwaits : (m.effect i).1 = .awaitingKey := h
  have hi : i.isAwaitKey = true := by
    cases hi : i.isAwaitKey with
    | true => rfl
    | false => exact absurd hwaits (effect_keyWait hi).2
  refine ⟨hi, ?_⟩
  rw [complete_eq, if_pos hwaits]
  cases i with
  | act a =>
      cases a with
      | awaitKey x =>
          rw [effect, perform] at hwaits ⊢
          rcases awaitKey_cases m x with ⟨keys, he⟩ | ⟨registers, he⟩
          · rw [he]
          · rw [he] at hwaits
            cases hwaits
      | _ => cases hi
  | _ => cases hi

theorem complete_pc {i : Instruction} {next : UInt16} (h : (m.complete i next).1 ≠ .awaitingKey) :
    (m.complete i next).2.pc = next := by
  rw [complete_eq]
  exact if_neg h

theorem complete_flow_pc (f : Flow) (next : UInt16) :
    (m.complete (.flow f) next).2.pc = next := by
  apply complete_pc
  cases f <;> exact nofun

/-- The address behind an instruction that falls through does not wrap around. -/
theorem toNat_of_fallsThrough {i : Instruction} {next : UInt16} (ha : m.aim = .ok (i, next))
    (hi : i.fallsThrough = true) : next.toNat = m.pc.toNat + 2 := by
  obtain ⟨w, hf, -, ht⟩ := aim_eq_ok ha
  cases i with
  | act a =>
      obtain ⟨rfl, -, -⟩ := actTarget_eq_ok ht
      exact toNat_add_two (pc_le_of_fetch hf)
  | _ => cases hi

theorem toNat_of_skip {c : Condition} {next : UInt16} (ha : m.aim = .ok (.flow (.skip c), next)) :
    next.toNat = m.pc.toNat + if m.holds c then 4 else 2 := by
  obtain ⟨w, hf, -, ht⟩ := aim_eq_ok ha
  obtain ⟨rfl, -⟩ := le_of_reach ht
  exact toNat_pc_add (pc_le_of_fetch hf) c

end Machine

/-- An instruction that is completed changes no part outside its footprint.  If it waits
for a key, it changes nothing but the pending wait.  Otherwise one that falls through goes
on at the next word, and a skip at the next word or the one behind it; jumps and skips
change no part at all. -/
theorem instruction_keeps_to_footprint {m : Machine} {i : Instruction}
    (hi : m.completed? = some i) :
    ∃ outcome after, Procedure.cycle.run m = .ok outcome after ∧
      (∀ p, i.touches m.index.toNat p = false → m.Same after p) ∧
      (outcome = .awaitingKey →
        i.isAwaitKey = true ∧ after = { m with keyWait := after.keyWait, tones := after.tones }) ∧
      (i.fallsThrough = true → outcome ≠ .awaitingKey → after.pc.toNat = m.pc.toNat + 2) ∧
      (∀ c, i = .flow (.skip c) → after.pc.toNat = m.pc.toNat + if m.holds c then 4 else 2) ∧
      (∀ f, i = .flow f → f.movesStack = false →
        after = { m with pc := after.pc, tones := after.tones }) := by
  obtain ⟨next, ha⟩ := Machine.aim_of_completed? hi
  refine ⟨_, _, Procedure.run_cycle_of_aim ha, fun p hp => Machine.same_complete next hp,
    Machine.complete_of_awaitingKey, ?_, ?_, ?_⟩
  · intro hfalls hgoes
    rw [Machine.complete_pc hgoes]
    exact Machine.toNat_of_fallsThrough ha hfalls
  · rintro c rfl
    rw [Machine.complete_flow_pc]
    exact Machine.toNat_of_skip ha
  · rintro f rfl hf
    apply Machine.eq_of_same
    intro p
    apply Machine.same_complete
    cases p with
    | stack => exact hf
    | timer t => cases t <;> rfl
    | _ => rfl

/-- The registers 0 to 2 are stored at 0x300: no byte but these three is changed, and no
register. -/
theorem store_keeps_other_bytes :
    let m := ((Pacer.fresh (Keystream.seedKey 1) 12).serveAll
      [.load [0x60, 0x0A, 0xA3, 0x00, 0xF2, 0x55], .machine .cycle, .machine .cycle]).machine
    m.completed? = some (.act (.store 2)) ∧
      ∃ outcome after, Procedure.cycle.run m = .ok outcome after ∧
        (∀ address, address < 0x300 ∨ 0x302 < address → after.byteAt address = m.byteAt address) ∧
        ∀ z, after.register z = m.register z := by
  intro m
  have hm : m.completed? = some (.act (.store 2)) ∧ m.index.toNat = 0x300 := by decide +kernel
  obtain ⟨hi, hindex⟩ := hm
  obtain ⟨outcome, after, hrun, hsame, -⟩ := instruction_keeps_to_footprint hi
  refine ⟨hi, outcome, after, hrun, ?_, fun z => hsame (.register z) rfl⟩
  intro address hout
  apply hsame (.byte address)
  have hbytes : (Action.store 2).bytesWritten = 3 := rfl
  rw [Instruction.touches, hindex, hbytes, Bool.and_eq_false_imp, decide_eq_true_eq,
    decide_eq_false_iff_not]
  omega

end ChipEight
