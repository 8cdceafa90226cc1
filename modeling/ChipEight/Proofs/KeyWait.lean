import ChipEight.Proofs.Faults
import ChipEight.Proofs.Obstacles

/-!
# Waiting for a key

A wait for a key is one instruction that is executed again at every cycle until a
key changed.  Its first cycle notes the keys and each later one compares them with
the keys it finds.  So what a host does to the keys between two cycles matters only
by what is left of it.

`Machine.Awaits` is the invariant of a wait: the instruction, its address with a
word behind it, and the keys that were noted.  Every call keeps it but those that
load something and a cycle that finds a key changed (`Awaits.serve`), and so does
every list of such calls (`Awaits.serveAll`).  The three lemmas before that say what
a cycle does: the first (`serve_begin`), one that finds the same keys (`serve_same`)
and one that finds others (`serve_changed`).

The last part is about saved states.  Their checks ask for the instruction under a
pending wait, but not for the word behind it.
-/

namespace ChipEight

/-! ## Calls during a wait -/

/-- True if every cycle of the calls finds the keys `before`. -/
def Machine.findsKeys (before : Keypad) : Machine → List Call → Bool
  | _, [] => true
  | m, c :: cs => (c != .cycle || m.keypad == before) && (m.serve c).2.findsKeys before cs

/-! ## Keys that changed -/

/-- Of the keys that are not as they were, `k` is the lowest. -/
def Keypad.LowestChange (before now : Keypad) (k : Digit) : Prop :=
  now.get k ≠ before.get k ∧ ∀ j < k, now.get j = before.get j

namespace Machine

variable {m : Machine} {x : Digit} {before : Keypad}

theorem changedKey?_eq_none_iff : m.changedKey? before = none ↔ m.keypad = before := by
  rw [changedKey?, List.find?_eq_none]
  constructor
  · intro h
    apply Bank.ext_get
    intro k
    have hk := h k (Digit.mem_all k)
    simpa [isDown] using hk
  · rintro rfl k -
    simp [isDown]

theorem lowestChange_of_changedKey? {k : Digit} (h : m.changedKey? before = some k) :
    Keypad.LowestChange before m.keypad k := by
  rw [changedKey?, List.find?_eq_some_iff_getElem] at h
  obtain ⟨hk, i, hi, rfl, hlow⟩ := h
  simp only [Digit.all, List.getElem_finRange, isDown, bne_iff_ne, Bool.not_eq_true'] at hk hlow ⊢
  refine ⟨hk, ?_⟩
  intro j hj
  have := hlow j.val hj
  simpa using this

/-! ## One cycle of a wait -/

/-- The machine is at an instruction that waits for a key, at the address `p` with
a word behind it, and `pending` is its pending wait. -/
structure Awaits (m : Machine) (p : UInt16) (x : Digit) (pending : Option Keypad) : Prop where
  faces : m.Faces (.act (.awaitKey x))
  pc_eq : m.pc = p
  pc_lt : p.toNat + 1 < maxAddress
  keyWait_eq : m.keyWait = pending

namespace Awaits

variable {p : UInt16} {pending : Option Keypad}

theorem aim_eq (h : m.Awaits p x pending) : m.aim = .ok (.act (.awaitKey x), p + 2) := by
  obtain ⟨hfaces, rfl, hlt, -⟩ := h
  exact hfaces.aim_of_span_none rfl hlt

/-- The first cycle notes the keys. -/
theorem serve_begin (h : m.Awaits p x none) :
    m.serve .cycle =
      (.cycled (.ok .awaitingKey),
        { m with keyWait := some m.keypad, tones := m.countTone.tones }) := by
  rw [serve_cycle_of_aim h.aim_eq, complete, effect, perform, awaitKey_of_none h.keyWait_eq]
  exact congrArg (Prod.mk _) (countTone_congr rfl rfl)

theorem serve_same (h : m.Awaits p x (some before)) (hk : m.keypad = before) :
    m.serve .cycle = (.cycled (.ok .awaitingKey), { m with tones := m.countTone.tones }) := by
  rw [serve_cycle_of_aim h.aim_eq, complete, effect, perform,
    awaitKey_of_same h.keyWait_eq (changedKey?_eq_none_iff.mpr hk)]
  exact congrArg (Prod.mk _) (countTone_congr rfl rfl)

theorem serve_changed (h : m.Awaits p x (some before)) (hk : m.keypad ≠ before) :
    ∃ k, Keypad.LowestChange before m.keypad k ∧
      m.serve .cycle =
        (.cycled (.ok .proceed),
          { m with
            registers := m.registers.put x k.toByte
            pc := p + 2
            keyWait := none
            tones := m.countTone.tones }) := by
  cases hc : m.changedKey? before with
  | none => exact absurd (changedKey?_eq_none_iff.mp hc) hk
  | some k =>
      refine ⟨k, lowestChange_of_changedKey? hc, ?_⟩
      rw [serve_cycle_of_aim h.aim_eq, complete, effect, perform,
        awaitKey_of_changed h.keyWait_eq hc]
      exact congrArg (Prod.mk _) (countTone_congr rfl rfl)

/-! ## A wait goes on -/

theorem of_eq {s : Machine} {pending' : Option Keypad} (h : m.Awaits p x pending)
    (hmemory : s.memory = m.memory) (hpc : s.pc = m.pc) (hwait : s.keyWait = pending') :
    s.Awaits p x pending' := by
  have hword : s.wordAtPc = m.wordAtPc := by simp only [wordAtPc, byteAt, hmemory, hpc]
  refine ⟨⟨?_, ?_⟩, hpc.trans h.pc_eq, h.pc_lt, hwait⟩
  · rw [hpc]
    exact h.faces.1
  · rw [hword]
    exact h.faces.2

theorem noted (h : m.Awaits p x none) :
    Awaits { m with keyWait := some m.keypad, tones := m.countTone.tones } p x (some m.keypad) :=
  h.of_eq rfl rfl rfl

/-- Between two cycles a host may do anything that loads nothing. -/
theorem serve_between (h : m.Awaits p x pending) {c : Call} (hl : c.loads = false)
    (hc : c ≠ .cycle) : (m.serve c).2.Awaits p x pending := by
  cases c with
  | cycle => exact absurd rfl hc
  | reset | load _ | restore _ => cases hl
  | _ => exact h.of_eq rfl rfl h.keyWait_eq

theorem serveAll_between (h : m.Awaits p x pending) {calls : List Call}
    (hc : ∀ c ∈ calls, c.loads = false ∧ c ≠ .cycle) : (m.serveAll calls).2.Awaits p x pending := by
  induction calls generalizing m with
  | nil => exact h
  | cons c cs ih =>
      obtain ⟨⟨hl, hcycle⟩, hcs⟩ := List.forall_mem_cons.mp hc
      exact ih (h.serve_between hl hcycle) hcs

/-- A call keeps the wait, unless it is a cycle that finds a key changed. -/
theorem serve (h : m.Awaits p x (some before)) {c : Call} (hl : c.loads = false)
    (hk : c = .cycle → m.keypad = before) :
    (m.serve c).2.Awaits p x (some before) ∧
      ∀ result, (m.serve c).1 = .cycled result → result = .ok .awaitingKey := by
  by_cases hc : c = .cycle
  · subst hc
    rw [h.serve_same (hk rfl)]
    refine ⟨h.of_eq rfl rfl h.keyWait_eq, ?_⟩
    intro result hr
    cases hr
    rfl
  · refine ⟨h.serve_between hl hc, ?_⟩
    intro result hr
    cases c with
    | cycle => exact absurd rfl hc
    | reset | load _ | restore _ => cases hl
    | _ => cases hr

/-- A list of calls keeps the wait if all its cycles find the noted keys, and each
of them is answered by waiting on. -/
theorem serveAll (h : m.Awaits p x (some before)) {calls : List Call}
    (hl : ∀ c ∈ calls, c.loads = false) (hk : m.findsKeys before calls = true) :
    (m.serveAll calls).2.Awaits p x (some before) ∧
      ∀ result, .cycled result ∈ (m.serveAll calls).1 → result = .ok .awaitingKey := by
  induction calls generalizing m with
  | nil => exact ⟨h, nofun⟩
  | cons c cs ih =>
      obtain ⟨hlc, hlcs⟩ := List.forall_mem_cons.mp hl
      obtain ⟨hkc, hkcs⟩ := Bool.and_eq_true_iff.mp hk
      have hfound : c = .cycle → m.keypad = before := by
        rintro rfl
        simpa using hkc
      obtain ⟨hafter, hreply⟩ := h.serve hlc hfound
      obtain ⟨hend, hreplies⟩ := ih hafter hlcs hkcs
      refine ⟨hend, ?_⟩
      intro result hr
      rcases List.mem_cons.mp hr with hr | hr
      · exact hreply result hr.symm
      · exact hreplies result hr

end Awaits

end Machine

/-- A machine at an instruction that waits for a key, with any calls between two
cycles before its first.  That cycle notes the keys.  While cycles find the same
keys, they change nothing but the tones asked for, and it does not matter what the
keys were in between.  The first cycle that finds other keys names the lowest key
that changed in the register, ends the wait and goes on behind it. -/
theorem key_wait_protocol {m : Machine} {x : Digit} (hx : m.Faces (.act (.awaitKey x)))
    (hpc : m.pc.toNat ≤ 0xFFD) (hwait : m.keyWait = none) {early : List Call}
    (hearly : ∀ c ∈ early, c.loads = false ∧ c ≠ .cycle) :
    let first := (m.serveAll early).2
    let begun := { first with keyWait := some first.keypad, tones := first.countTone.tones }
    first.serve .cycle = (.cycled (.ok .awaitingKey), begun) ∧
      ∀ calls : List Call, (∀ c ∈ calls, c.loads = false) →
        begun.findsKeys first.keypad calls = true →
          let now := (begun.serveAll calls).2
          (∀ result, .cycled result ∈ (begun.serveAll calls).1 → result = .ok .awaitingKey) ∧
            (now.keypad = first.keypad →
              now.serve .cycle =
                (.cycled (.ok .awaitingKey), { now with tones := now.countTone.tones })) ∧
            (now.keypad ≠ first.keypad →
              ∃ k, Keypad.LowestChange first.keypad now.keypad k ∧
                now.serve .cycle =
                  (.cycled (.ok .proceed),
                    { now with
                      registers := now.registers.put x k.toByte
                      pc := m.pc + 2
                      keyWait := none
                      tones := now.countTone.tones })) := by
  have hm : m.Awaits m.pc x none := by
    refine ⟨hx, rfl, ?_, hwait⟩
    rw [maxAddress]
    omega
  have hfirst := hm.serveAll_between hearly
  refine ⟨hfirst.serve_begin, ?_⟩
  intro calls hl hk
  obtain ⟨hnow, hreplies⟩ := hfirst.noted.serveAll hl hk
  exact ⟨hreplies, hnow.serve_same, hnow.serve_changed⟩

/-- Keys 2 and 5 are down when the wait begins, and key 3 goes down and up between
two cycles.  Only when the keys 5 and 14 change is there an answer. -/
theorem key_wait_ignores_undone_change :
    let m := ((Pacer.fresh (Keystream.seedKey 1) 12).serveAll
      [.load [0xF4, 0x0A], .machine (.setKey 2 true)]).machine
    let first := (m.serveAll [.tickTimers, .setKey 5 true]).2
    let begun := { first with keyWait := some first.keypad, tones := first.countTone.tones }
    let calls := [.cycle, .setKey 3 true, .tickTimers, .setKey 3 false, .cycle,
      .setKey 14 true, .takeTones, .setKey 5 false]
    let now := (begun.serveAll calls).2
    m.Faces (.act (.awaitKey 4)) ∧ m.pc.toNat ≤ 0xFFD ∧ m.keyWait = none ∧
      begun.findsKeys first.keypad calls = true ∧
      ∃ k, Keypad.LowestChange first.keypad now.keypad k ∧
        (now.serve .cycle).1 = .cycled (.ok .proceed) ∧
        (now.serve .cycle).2.registers = now.registers.put 4 k.toByte := by
  intro m first begun calls now
  have hall : m.Faces (.act (.awaitKey 4)) ∧ m.pc.toNat ≤ 0xFFD ∧ m.keyWait = none ∧
      begun.findsKeys first.keypad calls = true ∧ now.keypad ≠ first.keypad := by decide +kernel
  obtain ⟨hx, hpc, hwait, hfound, hchange⟩ := hall
  have hearly : ∀ c ∈ [Call.tickTimers, .setKey 5 true], c.loads = false ∧ c ≠ .cycle := by decide
  obtain ⟨-, hrun⟩ := key_wait_protocol hx hpc hwait hearly
  obtain ⟨-, -, hends⟩ := hrun calls (by decide) hfound
  obtain ⟨k, hk, he⟩ := hends hchange
  refine ⟨hx, hpc, hwait, hfound, k, hk, ?_, ?_⟩
  · rw [he]
  · rw [he]

/-! ## A wait that is restored -/

namespace Machine

/-- A coherent machine with a pending wait faces the instruction for it. -/
theorem Coherent.faces_of_wait {m : Machine} (h : m.Coherent) (hw : m.keyWait.isSome = true) :
    ∃ x, m.Faces (.act (.awaitKey x)) := by
  obtain ⟨w, hf, hi⟩ := h.atWait hw
  obtain ⟨hle, rfl⟩ := fetch_eq_ok_iff.mp hf
  have hpc : m.pc.toNat < maxAddress := by
    simp only [memorySize, maxAddress] at *
    omega
  cases hd : Instruction.decode m.wordAtPc with
  | act a =>
      rw [← wordAtPc, hd] at hi
      cases a with
      | awaitKey x => exact ⟨x, hpc, hd⟩
      | _ => cases hi
  | _ =>
      rw [← wordAtPc, hd] at hi
      cases hi

/-- No cycle leaves a machine waiting for a key in the last word of memory. -/
theorem pc_lt_of_awaitingKey {m m' : Machine} (h : Procedure.cycle.run m = .ok .awaitingKey m') :
    m'.pc.toNat + 1 < maxAddress := by
  rcases Procedure.cycle_cases m with ⟨f, -, hr⟩ | ⟨i, next, ha, hr⟩
  · rw [hr] at h
    cases h
  · rw [hr] at h
    obtain ⟨hout, rfl⟩ := EStateM.Result.ok.inj h
    have hwaits : (m.effect i).1 = .awaitingKey := hout
    obtain ⟨w, hf, -, ht⟩ := aim_eq_ok ha
    have hpc : (m.complete i next).2.pc = m.pc := by
      rw [complete_eq]
      exact if_pos hwaits
    -- only the instruction that waits has this outcome, and it is an action: the
    -- word behind it was checked before
    cases hi : i.isAwaitKey with
    | false => exact absurd hwaits (effect_keyWait hi).2
    | true =>
        cases i with
        | act a =>
            obtain ⟨rfl, hle, -⟩ := actTarget_eq_ok ht
            rw [toNat_add_two (pc_le_of_fetch hf)] at hle
            rw [hpc]
            omega
        | _ => cases hi

end Machine

/-- A saved state with a pending wait that passes every check is restored to a
machine whose next cycle goes on with the wait or ends it, unless the wait is in
the last word of memory.  There the next cycle fails, and there no cycle could have
begun it. -/
theorem restored_wait_fails_at_last_word {s : SavedState} {keys : Keypad}
    (hs : s.corruption? = none) (hw : s.awaitingKey = some keys) (m : Machine) :
    let r := s.restore m
    (∀ f, Procedure.cycle.answer r = .error f ↔
        s.pc.toNat + 1 = maxAddress ∧ f = .outOfBounds memorySize s.pc) ∧
      (s.pc.toNat + 1 ≠ maxAddress →
        (s.keypad = keys →
          r.serve .cycle = (.cycled (.ok .awaitingKey), { r with tones := r.countTone.tones })) ∧
        (s.keypad ≠ keys →
          ∃ x k, r.Faces (.act (.awaitKey x)) ∧ Keypad.LowestChange keys s.keypad k ∧
            r.serve .cycle =
              (.cycled (.ok .proceed),
                { r with
                  registers := r.registers.put x k.toByte
                  pc := s.pc + 2
                  keyWait := none
                  tones := r.countTone.tones }))) ∧
      ∀ m₀ m₁, Procedure.cycle.run m₀ = .ok .awaitingKey m₁ → m₁.pc.toNat + 1 ≠ maxAddress := by
  intro r
  have hr : r.Coherent := (SavedState.corruption?_eq_none_iff.mp hs).restore m
  have hwait : r.keyWait = some keys := hw
  obtain ⟨x, hx⟩ := hr.faces_of_wait (Option.isSome_of_eq_some hwait)
  have hawaits (hne : s.pc.toNat + 1 ≠ maxAddress) : r.Awaits s.pc x (some keys) := by
    have hlt : s.pc.toNat < maxAddress := hx.1
    exact ⟨hx, rfl, by omega, hwait⟩
  refine ⟨?_, ?_, ?_⟩
  · intro f
    rw [Procedure.answer_cycle_eq_error_iff]
    by_cases hlast : s.pc.toNat + 1 = maxAddress
    · have ha := (Machine.StoppedBy.lastWord hx rfl hlast).aim_eq hr
      rw [ha]
      constructor
      · intro he
        cases he
        exact ⟨hlast, rfl⟩
      · rintro ⟨-, rfl⟩
        rfl
    · rw [(hawaits hlast).aim_eq]
      simp [hlast]
  · intro hne
    refine ⟨(hawaits hne).serve_same, ?_⟩
    intro hk
    obtain ⟨k, hlow, he⟩ := (hawaits hne).serve_changed hk
    exact ⟨x, k, hx, hlow, he⟩
  · intro m₀ m₁ h
    exact Nat.ne_of_lt (Machine.pc_lt_of_awaitingKey h)

/-- A wait saved after key 3 went down is restored to a machine that still has to
see it. -/
theorem restored_wait_sees_key :
    let m := ((Pacer.fresh (Keystream.seedKey 1) 12).serveAll
      [.load [0xF2, 0x0A], .tick, .machine (.setKey 3 true)]).machine
    let s := SavedState.capture m
    let keys : Keypad := Vector.replicate 16 false
    let r := s.restore (Machine.ofSeed 2)
    s.corruption? = none ∧ s.awaitingKey = some keys ∧
      (∀ f, Procedure.cycle.answer r ≠ .error f) ∧
      ∃ x k, r.Faces (.act (.awaitKey x)) ∧ Keypad.LowestChange keys s.keypad k ∧
        (r.serve .cycle).2.registers = r.registers.put x k.toByte := by
  intro m s keys r
  have hm : m.Coherent := Pacer.coherent_serveAll (Pacer.coherent_fresh _ _) _
  have hs : s.corruption? = none := SavedState.corruption?_eq_none_iff.mpr hm.capture
  have hrun : s.awaitingKey = some keys ∧ s.pc.toNat + 1 ≠ maxAddress ∧ s.keypad ≠ keys := by
    decide +kernel
  obtain ⟨hw, hne, hk⟩ := hrun
  obtain ⟨hfails, hgoes, -⟩ := restored_wait_fails_at_last_word hs hw (Machine.ofSeed 2)
  obtain ⟨x, k, hx, hlow, he⟩ := (hgoes hne).2 hk
  refine ⟨hs, hw, ?_, x, k, hx, hlow, ?_⟩
  · intro f hf
    exact hne ((hfails f).mp hf).1
  · rw [he]

/-- A state that waits for a key in the last word of memory passes every check, and
the machine it is restored to fails at its next cycle although no key changed. -/
theorem wait_at_last_word_is_accepted :
    let keys : Keypad := Vector.replicate 16 false
    let s := { SavedState.capture (Machine.ofSeed 1) with
      memory := List.replicate 4094 0 ++ [0xF0, 0x0A], pc := 0xFFE, awaitingKey := some keys }
    s.corruption? = none ∧ s.keypad = keys ∧
      Procedure.cycle.answer (s.restore (Machine.ofSeed 1)) =
        .error (.outOfBounds memorySize 0xFFE) := by
  intro keys s
  have hs : s.corruption? = none := by decide +kernel
  have hr := (SavedState.corruption?_eq_none_iff.mp hs).restore (Machine.ofSeed 1)
  obtain ⟨x, hx⟩ := hr.faces_of_wait rfl
  refine ⟨hs, rfl, ?_⟩
  rw [Procedure.answer_cycle_eq_error_iff]
  exact (Machine.StoppedBy.lastWord hx rfl rfl).aim_eq hr

end ChipEight
