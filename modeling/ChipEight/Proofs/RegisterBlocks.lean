import ChipEight.Proofs.Completed
import ChipEight.Proofs.Untouched

/-!
# Blocks of registers

A program keeps its registers in memory with one instruction and takes them back with another.
Both go from the first register to the named one, and from the byte at the index on; neither
moves the index.  So the two undo each other as long as the index and the block are the same
(`Machine.KeepsBlock`), whatever else happens in between.

Each is said register by register and byte by byte: register `j` belongs to the byte `j` behind
the index, for every `j` up to the last register, and no other byte or register is touched.
-/

namespace ChipEight

namespace Machine

variable {m m' : Machine} {x j : Digit}

/-! ## Bytes and registers -/

/-- A register that is stored is in the byte that belongs to it. -/
theorem perform_store_byteAt (hj : j ≤ x) (hfits : m.index.toNat + j.val < memorySize) :
    (m.perform (.store x)).2.byteAt (m.index.toNat + j.val) = m.register j := by
  have hlength : j.val < (m.registers.toList.take (x.val + 1)).length := by
    have hval : j.val ≤ x.val := hj
    rw [List.length_take, Vector.length_toList]
    omega
  refine (byteAt_store hlength hfits).trans ?_
  rw [List.get_eq_getElem, List.getElem_take, Vector.getElem_toList]
  rfl

/-- A register that is loaded has the byte that belongs to it. -/
theorem perform_load_register (hj : j ≤ x) :
    (m.perform (.load x)).2.register j = m.byteAt (m.index.toNat + j.val) := by
  have hlt : 0 ≤ j.val ∧ j.val - 0 < (m.bytesFrom m.index.toNat (x.val + 1)).length := by
    have hval : j.val ≤ x.val := hj
    rw [length_bytesFrom]
    omega
  rw [perform, register, Bank.get_eq_getElem, Bank.getElem_write, dif_pos hlt]
  simp [bytesFrom]

/-! ## The two instructions -/

theorem after_store (h : m.completed? = some (.act (.store x))) :
    Procedure.cycle.after m =
      { (m.perform (.store x)).2 with pc := m.pc + 2, tones := m.countTone.tones } :=
  Procedure.after_of_run_ok (run_completed_act h nofun rfl)

theorem after_load (h : m.completed? = some (.act (.load x))) :
    Procedure.cycle.after m =
      { (m.perform (.load x)).2 with pc := m.pc + 2, tones := m.countTone.tones } :=
  Procedure.after_of_run_ok (run_completed_act h nofun rfl)

/-- Both are completed as long as the last byte of the block is one of memory. -/
theorem completed?_block_iff {a : Action} (ha : a = .store x ∨ a = .load x)
    (hi : m.Faces (.act a)) (hpc : m.pc.toNat + 1 < maxAddress) :
    m.completed? = some (.act a) ↔ m.index.toNat + x.val ≤ maxAddress := by
  have hspan : a.span = some (x.val + 1) := by
    rcases ha with rfl | rfl
    · rfl
    · rfl
  have hblock : m.index.toNat + (x.val + 1) ≤ memorySize ↔
      m.index.toNat + x.val ≤ maxAddress := by
    rw [memorySize, maxAddress]
    omega
  rw [completed?_act_iff, hspan, ← hblock]
  constructor
  · rintro ⟨-, -, hle⟩
    exact hle _ rfl
  · intro hle
    refine ⟨hi, hpc, ?_⟩
    rintro _ ⟨⟩
    exact hle

/-- The bytes of a block hold the registers they belong to, and every other byte what it held. -/
theorem store_byteAt (h : m.completed? = some (.act (.store x))) :
    (∀ j ≤ x, (Procedure.cycle.after m).byteAt (m.index.toNat + j.val) = m.register j) ∧
      ∀ address, ¬ (m.index.toNat ≤ address ∧ address ≤ m.index.toNat + x.val) →
        (Procedure.cycle.after m).byteAt address = m.byteAt address := by
  rw [after_store h]
  constructor
  · intro j hj
    have hval : j.val ≤ x.val := hj
    have hfits := (completed?_act_iff.mp h).2.2 _ rfl
    exact perform_store_byteAt hj (by omega)
  · intro address hout
    have hwritten : (Action.store x).bytesWritten = x.val + 1 := rfl
    exact perform_byteAt (by rw [hwritten]; omega)

/-- The registers up to the last one have their bytes, and nothing else is changed but the
program counter and the tones. -/
theorem load_register_of_completed? (h : m.completed? = some (.act (.load x))) :
    (∀ j ≤ x, (Procedure.cycle.after m).register j = m.byteAt (m.index.toNat + j.val)) ∧
      (∀ z, x < z → (Procedure.cycle.after m).register z = m.register z) ∧
      (Procedure.cycle.after m).index = m.index ∧
      (Procedure.cycle.after m).memory = m.memory := by
  rw [after_load h]
  exact ⟨fun j hj => perform_load_register hj, fun z hz => load_register hz, rfl, rfl⟩

/-! ## A block that is kept -/

/-- The index is the same, and so are the bytes at it that belong to the registers up to `x`. -/
def KeepsBlock (m m' : Machine) (x : Digit) : Prop :=
  m'.index = m.index ∧
    ∀ j ≤ x, m'.byteAt (m.index.toNat + j.val) = m.byteAt (m.index.toNat + j.val)

/-- A run that touches neither the index nor the block keeps it. -/
theorem keepsBlock_serveAll {calls : List Call} (hindex : m.touched .index calls = false)
    (hbytes : ∀ j ≤ x, m.touched (.byte (m.index.toNat + j.val)) calls = false) :
    m.KeepsBlock (m.serveAll calls).2 x :=
  ⟨same_serveAll (p := .index) hindex, fun j hj => same_serveAll (p := .byte _) (hbytes j hj)⟩

/-- Registers that were stored come back from a block that was kept. -/
theorem load_behind_store (h : m.completed? = some (.act (.store x)))
    (hkept : (Procedure.cycle.after m).KeepsBlock m' x)
    (h' : m'.completed? = some (.act (.load x))) (hj : j ≤ x) :
    (Procedure.cycle.after m').register j = m.register j := by
  obtain ⟨hindex, hbytes⟩ := hkept
  have hfirst : (Procedure.cycle.after m).index = m.index := by rw [after_store h]; rfl
  rw [hfirst] at hindex hbytes
  rw [(load_register_of_completed? h').1 j hj, hindex, hbytes j hj, (store_byteAt h).1 j hj]

/-- A block that was just loaded is stored as it is. -/
theorem store_behind_load (h : m.completed? = some (.act (.load x)))
    (h' : (Procedure.cycle.after m).completed? = some (.act (.store x))) :
    (Procedure.cycle.after (Procedure.cycle.after m)).memory = m.memory := by
  obtain ⟨hregisters, -, hindex, hmemory⟩ := load_register_of_completed? h
  obtain ⟨hinside, houtside⟩ := store_byteAt h'
  have hbyte (address : Nat) : (Procedure.cycle.after m).byteAt address = m.byteAt address := by
    rw [byteAt, hmemory]
    rfl
  apply memory_eq_of_byteAt
  intro address
  rw [hindex] at hinside houtside
  -- a byte of the block goes through the register it belongs to, and comes back the same
  by_cases hin : m.index.toNat ≤ address ∧ address ≤ m.index.toNat + x.val
  · have hlt : address - m.index.toNat < 16 := by have := x.isLt; omega
    have hle : (⟨address - m.index.toNat, hlt⟩ : Digit) ≤ x := by
      rw [Fin.le_def]
      dsimp only
      omega
    have hsum : m.index.toNat + (address - m.index.toNat) = address := by omega
    have hstored := hinside _ hle
    rwa [hregisters _ hle, hsum] at hstored
  · rw [houtside address hin, hbyte]

end Machine

/-- Stored registers are in the bytes at the index, and no other byte is changed.  Behind any run
that keeps the index and these bytes, and every run does that touches neither, they come back as
they were stored, and the further registers, the index and memory are left alone.  The other way
round, registers that were just loaded are stored without a change to memory.  Both instructions
are completed up to a block that ends with the last byte of memory. -/
theorem registers_come_back_from_memory :
    (∀ (m : Machine) (x : Digit), m.completed? = some (.act (.store x)) →
      let stored := Procedure.cycle.after m
      (∀ j ≤ x, stored.byteAt (m.index.toNat + j.val) = m.register j) ∧
      (∀ address, ¬ (m.index.toNat ≤ address ∧ address ≤ m.index.toNat + x.val) →
        stored.byteAt address = m.byteAt address) ∧
      ∀ calls : List Call,
        let later := (stored.serveAll calls).2
        (stored.touched .index calls = false →
          (∀ j ≤ x, stored.touched (.byte (stored.index.toNat + j.val)) calls = false) →
            stored.KeepsBlock later x) ∧
        (stored.KeepsBlock later x → later.completed? = some (.act (.load x)) →
          let loaded := Procedure.cycle.after later
          (∀ j ≤ x, loaded.register j = m.register j) ∧
          (∀ z, x < z → loaded.register z = later.register z) ∧
          loaded.index = later.index ∧ loaded.memory = later.memory)) ∧
    (∀ (m : Machine) (x : Digit), m.completed? = some (.act (.load x)) →
      let loaded := Procedure.cycle.after m
      loaded.completed? = some (.act (.store x)) →
        (Procedure.cycle.after loaded).memory = m.memory) ∧
    ∀ (m : Machine) (x : Digit) (a : Action), a = .store x ∨ a = .load x →
      m.Faces (.act a) → m.pc.toNat + 1 < maxAddress →
        (m.completed? = some (.act a) ↔ m.index.toNat + x.val ≤ maxAddress) := by
  refine ⟨?_, ?_, ?_⟩
  · intro m x h stored
    obtain ⟨hinside, houtside⟩ := Machine.store_byteAt h
    refine ⟨hinside, houtside, ?_⟩
    intro calls later
    refine ⟨fun hindex hbytes => Machine.keepsBlock_serveAll hindex hbytes, ?_⟩
    intro hkept h' loaded
    exact ⟨fun j hj => Machine.load_behind_store h hkept h' hj,
      (Machine.load_register_of_completed? h').2⟩
  · intro m x h loaded h'
    exact Machine.store_behind_load h h'
  · intro m x a ha hi hpc
    exact Machine.completed?_block_iff ha hi hpc

/-- Two registers are stored in the last two bytes of memory, changed, and loaded again while a
timer runs and a key goes down.  Then the block is loaded and stored once more. -/
theorem last_block_comes_back :
    let m := ((Pacer.fresh (Keystream.seedKey 1) 12).serveAll
      (.load [0x60, 0x0A, 0x61, 0x0B, 0xAF, 0xFE, 0xF1, 0x55, 0x60, 0x00, 0x81, 0x00,
        0xF1, 0x65, 0xF1, 0x55] :: List.replicate 3 (.machine .cycle))).machine
    let calls : List Call := [.cycle, .tickTimers, .setKey 3 true, .cycle]
    let later := ((Procedure.cycle.after m).serveAll calls).2
    m.completed? = some (.act (.store 1)) ∧ m.index.toNat + 1 = maxAddress ∧
      later.register 0 = 0 ∧ later.register 1 = 0 ∧
      (Procedure.cycle.after later).register 0 = 0x0A ∧
      (Procedure.cycle.after later).register 1 = 0x0B ∧
      (Procedure.cycle.after (Procedure.cycle.after later)).memory = later.memory := by
  intro m calls later
  obtain ⟨hstores, hloads, hends⟩ := registers_come_back_from_memory
  have hrun : m.Faces (.act (.store 1)) ∧ m.pc.toNat + 1 < maxAddress ∧
      m.index.toNat + 1 = maxAddress ∧ m.register 0 = 0x0A ∧ m.register 1 = 0x0B ∧
      (Procedure.cycle.after m).touched .index calls = false ∧
      (∀ j ≤ (1 : Digit), (Procedure.cycle.after m).touched
        (.byte ((Procedure.cycle.after m).index.toNat + j.val)) calls = false) ∧
      later.completed? = some (.act (.load 1)) ∧ later.register 0 = 0 ∧ later.register 1 = 0 ∧
      (Procedure.cycle.after later).completed? = some (.act (.store 1)) := by decide +kernel
  obtain ⟨hfaces, hpc, hindex, hzero, hone, hspares, hbytes, hload, hzero', hone', hagain⟩ := hrun
  have hstore : m.completed? = some (.act (.store 1)) :=
    (hends m 1 _ (Or.inl rfl) hfaces hpc).mpr (Nat.le_of_eq hindex)
  obtain ⟨hkeeps, hback⟩ := (hstores m 1 hstore).2.2 calls
  obtain ⟨hregisters, -⟩ := hback (hkeeps hspares hbytes) hload
  exact ⟨hstore, hindex, hzero', hone', (hregisters 0 (by decide)).trans hzero,
    (hregisters 1 (by decide)).trans hone, hloads later 1 hload hagain⟩

end ChipEight
