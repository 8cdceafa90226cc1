import ChipEight.Machine.Cycle

/-!
# Checks first

A cycle works on the machine in place, and its checks are spread over it: a call
pushes its address, and a random byte is drawn, before the last check of the
instruction.  Here all checks of a cycle stand in front of all it changes.

`Machine.aim` is the instruction at the program counter with the address it leads
to, or the fault of the first check that does not hold.  It only reads.
`Machine.complete` is what the instruction then does, and it cannot fail.
`run_cycle` says that a cycle is the one after the other, for every machine.  So
the late checks never find anything.  Two facts carry this: a decoded word
names no address above `maxAddress` (`decode_inRange`), and a word that can be
fetched has its own address below it (`pc_le_of_fetch`).

Everything that is said about a cycle elsewhere goes through `run_cycle`.
-/

namespace ChipEight

/-! ## Decoded addresses -/

/-- Every address an instruction names is an address of memory. -/
def Instruction.InRange : Instruction → Prop
  | .flow (.jump nnn) | .flow (.jumpOffset nnn) | .flow (.call nnn) => nnn.toNat ≤ maxAddress
  | .act (.setIndex nnn) => nnn.toNat ≤ maxAddress
  | _ => True

theorem wordAddress_le (w : UInt16) : (wordAddress w).toNat ≤ maxAddress := by
  have h : w.toNat % 4096 < 4096 := Nat.mod_lt _ (by decide)
  rw [wordAddress, UInt16.toNat_ofNat', maxAddress]
  omega

theorem ofCode?_inRange {x : Digit} {code : Nat} {a : Action}
    (h : Action.ofCode? x code = some a) : (Instruction.act a).InRange := by
  unfold Action.ofCode? at h
  split at h
  all_goals cases h
  all_goals trivial

theorem decode_inRange (w : UInt16) : (Instruction.decode w).InRange := by
  unfold Instruction.decode
  dsimp only
  split
  -- the operations 1, 2, A and B name an address, and F may be one of many actions
  case h_2 | h_3 | h_11 | h_12 => exact wordAddress_le w
  case h_16 =>
    split
    · next h => exact ofCode?_inRange h
    · trivial
  all_goals first | trivial | (split <;> trivial)

namespace Machine

variable {m : Machine}

/-! ## Single checks -/

theorem reach_of_le {t : UInt16} (h : t.toNat ≤ maxAddress) : m.reach t = .ok t := if_pos h

theorem le_of_reach {t a : UInt16} (h : m.reach t = .ok a) : a = t ∧ t.toNat ≤ maxAddress := by
  unfold reach at h
  split at h
  next hle =>
    cases h
    exact ⟨rfl, hle⟩
  next => cases h

theorem demandNext_act (a : Action) :
    m.demandNext (.act a) =
      match m.reach (m.pc + 2) with
      | .error f => .error f
      | .ok _ => .ok () := by
  rw [demandNext, Instruction.fallsThrough]
  cases m.reach (m.pc + 2) <;> rfl

/-- The bytes an action touches at the index lie in memory. -/
theorem le_of_demandSpan {a : Action} {length : Nat} (hs : a.span = some length)
    (h : m.demandSpan a = .ok ()) : m.index.toNat + length ≤ memorySize := by
  simp only [demandSpan, hs, demand] at h
  split at h
  next hle => exact hle
  · cases h

/-- A word that can be fetched lies in memory with both its bytes. -/
theorem fetch_eq_ok_iff {w : UInt16} :
    m.fetch = .ok w ↔
      m.pc.toNat + 2 ≤ memorySize ∧ w = word (m.byteAt m.pc.toNat) (m.byteAt (m.pc.toNat + 1)) := by
  unfold fetch demand
  by_cases h : m.pc.toNat + 2 ≤ memorySize
  · rw [if_pos h]
    constructor
    · intro e
      cases e
      exact ⟨h, rfl⟩
    · rintro ⟨_, rfl⟩
      rfl
  · rw [if_neg h]
    constructor
    · intro e
      cases e
    · intro e
      exact absurd e.1 h

theorem pc_le_of_fetch {w : UInt16} (h : m.fetch = .ok w) : m.pc.toNat ≤ maxAddress := by
  have := (fetch_eq_ok_iff.mp h).1
  simp only [memorySize, maxAddress] at *
  omega

/-! ## All checks of an instruction -/

/-- The address a flow instruction leads to. -/
def flowTarget (m : Machine) : Flow → Except Fault UInt16
  | .jump nnn => m.reach nnn
  | .jumpOffset nnn => m.reach (nnn + (m.register (Digit.ofNat 0)).toUInt16)
  | .call nnn => if stackDepth ≤ m.stack.length then .error (.stackOverflow m.pc) else m.reach nnn
  | .ret =>
      match m.stack with
      | [] => .error (.stackUnderflow m.pc)
      | caller :: _ => m.reach (caller + 2)
  | .skip c => m.reach (m.pc + if m.holds c then 4 else 2)

/-- The address behind an action whose demands are met. -/
def actTarget (m : Machine) (a : Action) : Except Fault UInt16 :=
  match m.reach (m.pc + 2) with
  | .error f => .error f
  | .ok next =>
      match m.demandSpan a with
      | .error f => .error f
      | .ok _ => .ok next

/-- The address an instruction leads to. -/
def target (m : Machine) : Instruction → Except Fault UInt16
  | .flow f => m.flowTarget f
  | .act a => m.actTarget a
  | .unknown w => .error (.unsupported w m.pc)

/-- The instruction at the program counter and the address it leads to, if all
its checks hold. -/
def aim (m : Machine) : Except Fault (Instruction × UInt16) :=
  match m.fetch with
  | .error f => .error f
  | .ok w =>
      match m.target (Instruction.decode w) with
      | .error f => .error f
      | .ok next => .ok (Instruction.decode w, next)

/-! ## All changes of an instruction -/

/-- What an instruction does whose checks hold, the program counter and the tones
apart. -/
def effect (m : Machine) : Instruction → Outcome × Machine
  | .flow (.call _) => (.proceed, { m with stack := m.pc :: m.stack })
  | .flow .ret => (.proceed, { m with stack := m.stack.tail })
  | .flow (.jump _) | .flow (.jumpOffset _) | .flow (.skip _) | .unknown _ => (.proceed, m)
  | .act a => m.perform a

/-- An instruction that waits stays, any other goes on. -/
def complete (m : Machine) (i : Instruction) (next : UInt16) : Outcome × Machine :=
  let done := m.effect i
  let pc := if done.1 = .awaitingKey then m.pc else next
  (done.1, { done.2 with pc }.countTone)

theorem countTone_eq (m : Machine) : m.countTone = { m with tones := m.countTone.tones } := by
  unfold countTone
  split <;> rfl

theorem countTone_congr {s : Machine} (hsound : s.sound = m.sound) (htones : s.tones = m.tones) :
    s.countTone = { s with tones := m.countTone.tones } := by
  unfold countTone
  by_cases h : m.sound = 0
  · rw [if_pos (hsound.trans h), if_pos h, ← htones]
  · rw [if_neg (hsound ▸ h), if_neg h, htones]

/-- The program counter is moved and the tones are counted; all else is the effect
of the instruction. -/
theorem complete_eq (m : Machine) (i : Instruction) (next : UInt16) :
    (m.complete i next).2 =
      { (m.effect i).2 with
        pc := if (m.effect i).1 = .awaitingKey then m.pc else next
        tones := (m.complete i next).2.tones } := by
  rw [complete, countTone_eq]

/-! ## A target is an address -/

theorem flowTarget_le {f : Flow} {next : UInt16} (h : m.flowTarget f = .ok next) :
    next.toNat ≤ maxAddress := by
  have of_reach {t : UInt16} (h : m.reach t = .ok next) : next.toNat ≤ maxAddress := by
    obtain ⟨rfl, hle⟩ := le_of_reach h
    exact hle
  unfold flowTarget at h
  split at h
  case h_3 =>
    split at h
    · cases h
    · exact of_reach h
  case h_4 =>
    split at h
    · cases h
    · exact of_reach h
  all_goals exact of_reach h

theorem actTarget_eq_ok {a : Action} {next : UInt16} (h : m.actTarget a = .ok next) :
    next = m.pc + 2 ∧ next.toNat ≤ maxAddress ∧ m.demandSpan a = .ok () := by
  unfold actTarget at h
  split at h
  · cases h
  next hr =>
    split at h
    · cases h
    next hs =>
      cases h
      obtain ⟨rfl, hle⟩ := le_of_reach hr
      exact ⟨rfl, hle, hs⟩

theorem aim_eq_ok {i : Instruction} {next : UInt16} (h : m.aim = .ok (i, next)) :
    ∃ w, m.fetch = .ok w ∧ i = Instruction.decode w ∧ m.target i = .ok next := by
  unfold aim at h
  split at h
  · cases h
  next w hf =>
    split at h
    · cases h
    next ht =>
      cases h
      exact ⟨w, hf, rfl, ht⟩

theorem target_le {i : Instruction} {next : UInt16} (h : m.target i = .ok next) :
    next.toNat ≤ maxAddress := by
  cases i with
  | flow f => exact flowTarget_le h
  | act a => exact (actTarget_eq_ok h).2.1
  | unknown w => cases h

end Machine

/-! ## A cycle checks first -/

namespace Procedure

variable {m : Machine}

theorem run_goTo_of_le {t : UInt16} (h : t.toNat ≤ maxAddress) :
    (goTo t).run m = .ok () { m with pc := t } := by
  simp only [goTo, EStateM.run_bind, run_check, Machine.reach_of_le h]
  rfl

/-- The word behind a flow instruction is nothing to it. -/
theorem execute_flow (f : Flow) :
    execute (.flow f) = do
      goTo (← follow f)
      return .proceed := rfl

/-- A flow instruction that names no address outside memory goes to its target, or
fails and changes nothing. -/
theorem run_flow {f : Flow} (hf : (Instruction.flow f).InRange) :
    (execute (.flow f)).run m =
      match m.flowTarget f with
      | .error e => .error e m
      | .ok next => .ok .proceed { (m.effect (.flow f)).2 with pc := next } := by
  cases f with
  | jump nnn =>
      rw [Machine.flowTarget, Machine.reach_of_le hf]
      simp only [execute_flow, follow, EStateM.run_bind, EStateM.run_pure, run_goTo_of_le hf]
      rfl
  | jumpOffset nnn =>
      simp only [execute_flow, follow, EStateM.run_bind, run_check, Machine.flowTarget]
      cases h : m.reach (nnn + (m.register (Digit.ofNat 0)).toUInt16) with
      | error e => rfl
      | ok next =>
          obtain ⟨rfl, hle⟩ := Machine.le_of_reach h
          simp only [run_goTo_of_le hle]
          rfl
  | call nnn =>
      simp only [execute_flow, follow, EStateM.run_bind, EStateM.run_get, Machine.flowTarget]
      by_cases hd : stackDepth ≤ m.stack.length
      · simp only [if_pos hd]
        rfl
      · simp only [if_neg hd, EStateM.run_bind, EStateM.run_set, EStateM.run_pure,
          run_goTo_of_le hf, Machine.reach_of_le hf]
        rfl
  | ret =>
      simp only [execute_flow, follow, EStateM.run_bind, EStateM.run_get, Machine.flowTarget]
      cases hs : m.stack with
      | nil => rfl
      | cons caller rest =>
          simp only [EStateM.run_bind, run_check]
          cases h : m.reach (caller + 2) with
          | error e => rfl
          | ok next =>
              obtain ⟨rfl, hle⟩ := Machine.le_of_reach h
              simp only [EStateM.run_set, EStateM.run_pure, run_goTo_of_le hle, Machine.effect, hs]
              rfl
  | skip c =>
      simp only [execute_flow, follow, EStateM.run_bind, EStateM.run_get, EStateM.run_pure,
        Machine.flowTarget, goTo, run_check]
      cases h : m.reach (m.pc + if m.holds c then 4 else 2) with
      | error e => rfl
      | ok next =>
          obtain ⟨rfl, hle⟩ := Machine.le_of_reach h
          rfl

/-- An action goes on behind it or stays, or fails and changes nothing. -/
theorem run_act {a : Action} (hpc : m.pc.toNat ≤ maxAddress) :
    (execute (.act a)).run m =
      match m.actTarget a with
      | .error e => .error e m
      | .ok next =>
          .ok (m.perform a).1
            { (m.perform a).2 with pc := if (m.perform a).1 = .awaitingKey then m.pc else next } := by
  simp only [execute, EStateM.run_bind, run_check, Machine.demandNext_act, Machine.actTarget]
  cases h : m.reach (m.pc + 2) with
  | error e => rfl
  | ok next =>
      obtain ⟨rfl, hle⟩ := Machine.le_of_reach h
      simp only [act, EStateM.run_bind, EStateM.run_get, run_check]
      cases m.demandSpan a with
      | error e => rfl
      | ok _ =>
          have hgo : (if (m.perform a).1 = .awaitingKey then m.pc else m.pc + 2).toNat
              ≤ maxAddress := by
            split
            · exact hpc
            · exact hle
          simp only [EStateM.run_modifyGet, run_goTo_of_le hgo]
          rfl

/-- An instruction that falls through is stopped where there is no word behind it, before it
does anything.  No other instruction is (`execute_flow`). -/
theorem run_execute_of_no_next {i : Instruction} (hi : i.fallsThrough = true)
    (hnext : maxAddress < (m.pc + 2).toNat) :
    (execute i).run m = .error (.outOfBounds (m.pc + 2).toNat m.pc) m := by
  cases i with
  | act a =>
      have hr : m.reach (m.pc + 2) = .error (.outOfBounds (m.pc + 2).toNat m.pc) :=
        if_neg (Nat.not_le_of_lt hnext)
      simp only [execute, EStateM.run_bind, run_check, Machine.demandNext_act, hr]
  | flow f | unknown w => cases hi

/-- Only an instruction that may change the program counter is asked for its
place, so its own address must be known to be one. -/
theorem run_execute {i : Instruction} (hi : i.InRange) (hpc : m.pc.toNat ≤ maxAddress) :
    (execute i).run m =
      match m.target i with
      | .error e => .error e m
      | .ok next =>
          .ok (m.effect i).1
            { (m.effect i).2 with pc := if (m.effect i).1 = .awaitingKey then m.pc else next } := by
  cases i with
  | flow f =>
      rw [run_flow hi, Machine.target]
      cases m.flowTarget f with
      | error e => rfl
      | ok next => cases f <;> rfl
  | act a => exact run_act hpc
  | unknown w => rfl

/-- A cycle fails at the first check that does not hold, and then the machine is
as it was; otherwise the instruction is completed. -/
theorem run_cycle (m : Machine) :
    cycle.run m =
      match m.aim with
      | .error e => .error e m
      | .ok (i, next) => .ok (m.complete i next).1 (m.complete i next).2 := by
  simp only [cycle, EStateM.run_bind, run_check, Machine.aim]
  cases hf : m.fetch with
  | error e => rfl
  | ok w =>
      simp only [run_execute (decode_inRange w) (Machine.pc_le_of_fetch hf)]
      cases m.target (Instruction.decode w) with
      | error e => rfl
      | ok next => rfl

theorem run_cycle_of_aim {i : Instruction} {next : UInt16} (h : m.aim = .ok (i, next)) :
    cycle.run m = .ok (m.complete i next).1 (m.complete i next).2 := by
  rw [run_cycle, h]

theorem run_cycle_of_fault {f : Fault} (h : m.aim = .error f) : cycle.run m = .error f m := by
  rw [run_cycle, h]

/-- A cycle is stopped by one fault or completes one instruction. -/
theorem cycle_cases (m : Machine) :
    (∃ f, m.aim = .error f ∧ cycle.run m = .error f m) ∨
      ∃ i next, m.aim = .ok (i, next) ∧
        cycle.run m = .ok (m.complete i next).1 (m.complete i next).2 := by
  cases h : m.aim with
  | error f => exact Or.inl ⟨f, rfl, run_cycle_of_fault h⟩
  | ok p => exact Or.inr ⟨p.1, p.2, rfl, run_cycle_of_aim h⟩

end Procedure

end ChipEight
