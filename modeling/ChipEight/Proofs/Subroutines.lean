import ChipEight.Proofs.Completed

/-!
# Subroutines

A call puts its own address on the stack, a return takes the latest one off and goes on
behind it, and nothing else a program or a host does touches the stack as long as nothing is
loaded (`Machine.serve_stack_cases`).  So what was on the stack stays there, in its order,
for as long as the stack does not become less deep (`Machine.suffix_serveAll`).  This does
not depend on what the subroutine does.  It may call others or itself, jump out of its own
code, write over the call, or fail.

The address that was put on the stack is one the call was fetched from, so the sum with the
length of the call does not wrap around.  Whether there is a word to go on at is asked by the
return, not by the call.
-/

namespace ChipEight

namespace Machine

variable {m : Machine}

/-- How deep the stack is behind each of the calls. -/
def depths : Machine → List Call → List Nat
  | _, [] => []
  | m, c :: cs => (m.serve c).2.stack.length :: (m.serve c).2.depths cs

/-! ## Calls and returns -/

/-- A call is completed as long as the stack has room for its address. -/
theorem serve_call {nnn : UInt16} (hi : m.Faces (.flow (.call nnn))) :
    m.serve .cycle =
      if m.stack.length < stackDepth then
        (.cycled (.ok .proceed),
          { m with stack := m.pc :: m.stack, pc := nnn, tones := m.countTone.tones })
      else (.cycled (.error (.stackOverflow m.pc)), m) := by
  by_cases hd : m.stack.length < stackDepth
  · have ht : m.target (.flow (.call nnn)) = .ok nnn := by
      rw [target, flowTarget, if_neg (Nat.not_le_of_lt hd)]
      exact reach_of_le hi.inRange
    rw [if_pos hd, serve_cycle_of_aim (hi.aim_eq_ok ht), complete, effect]
    exact congrArg (Prod.mk _) (countTone_congr rfl rfl)
  · have ht : m.target (.flow (.call nnn)) = .error (.stackOverflow m.pc) :=
      if_pos (Nat.le_of_not_lt hd)
    rw [if_neg hd, serve_cycle_of_fault (hi.aim_eq_error ht)]

/-- A return is completed if there is a word behind the call, the address of which is
the latest on the stack. -/
theorem serve_ret {caller : UInt16} {rest : List UInt16} (hi : m.Faces (.flow .ret))
    (hs : m.stack = caller :: rest) (hcaller : caller.toNat ≤ maxAddress) :
    m.serve .cycle =
      if caller.toNat + 2 ≤ maxAddress then
        (.cycled (.ok .proceed),
          { m with stack := rest, pc := caller + 2, tones := m.countTone.tones })
      else (.cycled (.error (.outOfBounds (caller.toNat + 2) m.pc)), m) := by
  have htarget : m.target (.flow .ret) = m.reach (caller + 2) := by
    simp only [target, flowTarget, hs]
  have hsum := toNat_add_two hcaller
  by_cases hle : caller.toNat + 2 ≤ maxAddress
  · have ht := htarget.trans (reach_of_le (hsum ▸ hle))
    rw [if_pos hle, serve_cycle_of_aim (hi.aim_eq_ok ht), complete, effect, hs]
    exact congrArg (Prod.mk _) (countTone_congr rfl rfl)
  · have ht : m.target (.flow .ret) = .error (.outOfBounds (caller.toNat + 2) m.pc) := by
      rw [htarget, reach_eq_error_iff, hsum]
      exact ⟨Nat.lt_of_not_le hle, rfl⟩
    rw [if_neg hle, serve_cycle_of_fault (hi.aim_eq_error ht)]

theorem length_lt_of_call {nnn next : UInt16} (ht : m.target (.flow (.call nnn)) = .ok next) :
    m.stack.length < stackDepth := by
  simp only [target, flowTarget] at ht
  split at ht
  · cases ht
  next hd => exact Nat.lt_of_not_le hd

/-! ## What stays on the stack -/

/-- An instruction pushes its own address, takes the latest address off, or leaves the
stack alone. -/
theorem effect_stack_cases (m : Machine) (i : Instruction) :
    (m.effect i).2.stack = m.stack ∨ (m.effect i).2.stack = m.pc :: m.stack ∨
      (m.effect i).2.stack = m.stack.tail := by
  cases i with
  | act a => exact Or.inl (effect_act_stack a)
  | unknown w => exact Or.inl rfl
  | flow f =>
      cases f with
      | call nnn => exact Or.inr (Or.inl rfl)
      | ret => exact Or.inr (Or.inr rfl)
      | _ => exact Or.inl rfl

theorem serve_stack_cases {c : Call} (hl : c.loads = false) :
    (m.serve c).2.stack = m.stack ∨ (m.serve c).2.stack = m.pc :: m.stack ∨
      (m.serve c).2.stack = m.stack.tail := by
  cases c with
  | cycle =>
      rcases completed?_cases m with ⟨-, ha⟩ | ⟨i, next, -, -, ha⟩
      · rw [serve, ha]
        exact Or.inl rfl
      · rw [serve, ha, complete_eq]
        exact effect_stack_cases m i
  | reset | load _ | restore _ => cases hl
  | _ => exact Or.inl rfl

/-- What is at the bottom of the stack stays there, unless the stack becomes less deep
than that. -/
theorem suffix_serve {base : List UInt16} {c : Call} (hb : base <:+ m.stack)
    (hl : c.loads = false) (hd : base.length ≤ (m.serve c).2.stack.length) :
    base <:+ (m.serve c).2.stack := by
  rcases serve_stack_cases (m := m) hl with he | he | he
  · rw [he]
    exact hb
  · rw [he]
    exact hb.trans (List.suffix_cons m.pc m.stack)
  · rw [he] at hd ⊢
    cases hs : m.stack with
    | nil => rwa [hs] at hb
    | cons caller rest =>
        rw [hs] at hb hd
        rcases List.suffix_cons_iff.mp hb with rfl | hrest
        · simp only [List.length_cons, List.tail_cons] at hd
          omega
        · exact hrest

theorem suffix_serveAll {base : List UInt16} {calls : List Call} (hb : base <:+ m.stack)
    (hl : ∀ c ∈ calls, c.loads = false) (hd : ∀ d ∈ m.depths calls, base.length ≤ d) :
    base <:+ (m.serveAll calls).2.stack := by
  induction calls generalizing m with
  | nil => exact hb
  | cons c cs ih =>
      obtain ⟨hlc, hlcs⟩ := List.forall_mem_cons.mp hl
      obtain ⟨hdc, hdcs⟩ := List.forall_mem_cons.mp hd
      exact ih (suffix_serve hb hlc hdc) hlcs hdcs

end Machine

/-- A call leaves its own address on the stack.  However the program runs on, its address
and all below it stay on the stack as long as this does not become less deep.  A return that
finds nothing above goes on behind the call, or fails for the lack of a word there and
changes nothing.  Calls further in are completed as long as fewer than `stackDepth` are
pending, and the one behind that fails and changes nothing. -/
theorem subroutine_returns_behind_call {m : Machine} {nnn : UInt16}
    (hm : m.completed? = some (.flow (.call nnn))) :
    let inside := (m.serve .cycle).2
    m.stack.length < stackDepth ∧
      m.serve .cycle =
        (.cycled (.ok .proceed),
          { m with stack := m.pc :: m.stack, pc := nnn, tones := m.countTone.tones }) ∧
      ∀ calls : List Call, (∀ c ∈ calls, c.loads = false) →
        (∀ d ∈ inside.depths calls, m.stack.length + 1 ≤ d) →
          let now := (inside.serveAll calls).2
          m.pc :: m.stack <:+ now.stack ∧
            (now.stack.length = m.stack.length + 1 → now.Faces (.flow .ret) →
              now.serve .cycle =
                if m.pc.toNat + 2 ≤ maxAddress then
                  (.cycled (.ok .proceed),
                    { now with stack := m.stack, pc := m.pc + 2, tones := now.countTone.tones })
                else (.cycled (.error (.outOfBounds (m.pc.toNat + 2) now.pc)), now)) ∧
            ∀ nnn', now.Faces (.flow (.call nnn')) →
              now.serve .cycle =
                if now.stack.length < stackDepth then
                  (.cycled (.ok .proceed),
                    { now with
                      stack := now.pc :: now.stack
                      pc := nnn'
                      tones := now.countTone.tones })
                else (.cycled (.error (.stackOverflow now.pc)), now) := by
  intro inside
  have hfaces := Machine.faces_of_completed? hm
  have hpc : m.pc.toNat ≤ maxAddress := Nat.le_of_lt hfaces.1
  obtain ⟨next, ha⟩ := Machine.aim_of_completed? hm
  obtain ⟨w, -, -, ht⟩ := Machine.aim_eq_ok ha
  have hd := Machine.length_lt_of_call ht
  have hcall := Machine.serve_call hfaces
  rw [if_pos hd] at hcall
  have hinside : inside.stack = m.pc :: m.stack := congrArg (fun r => r.2.stack) hcall
  refine ⟨hd, hcall, ?_⟩
  intro calls hl hdepth now
  have hsuffix : m.pc :: m.stack <:+ now.stack :=
    Machine.suffix_serveAll (hinside ▸ List.suffix_refl _) hl hdepth
  refine ⟨hsuffix, ?_, fun nnn' hi => Machine.serve_call hi⟩
  intro hlength hi
  have hstack : now.stack = m.pc :: m.stack := (hsuffix.eq_of_length hlength.symm).symm
  exact Machine.serve_ret hi hstack hpc

/-- A program writes a call in the last word of memory and goes there.  The subroutine calls
another, which returns.  When it returns itself, there is no word behind the first call. -/
theorem call_in_last_word_has_no_return :
    let m := ((Pacer.fresh (Keystream.seedKey 1) 12).serveAll
      (.load [0x60, 0x22, 0x61, 0x0A, 0xAF, 0xFE, 0xF1, 0x55, 0x1F, 0xFE, 0x22, 0x0E, 0x00, 0xEE,
        0x00, 0xEE] :: List.replicate 5 (.machine .cycle))).machine
    let inside := (m.serve .cycle).2
    let calls := [.cycle, .tickTimers, .cycle, .setKey 3 true]
    let now := (inside.serveAll calls).2
    m.completed? = some (.flow (.call 0x20A)) ∧ m.pc = 0xFFE ∧ inside.depths calls = [2, 2, 1, 1] ∧
      now.serve .cycle = (.cycled (.error (.outOfBounds memorySize 0x20C)), now) := by
  intro m inside calls now
  have hrun : m.completed? = some (.flow (.call 0x20A)) ∧ m.pc = 0xFFE ∧ m.stack.length = 0 ∧
      inside.depths calls = [2, 2, 1, 1] ∧ now.stack.length = 1 ∧ now.Faces (.flow .ret) ∧
      now.pc = 0x20C := by decide +kernel
  obtain ⟨hm, hpc, hempty, hdepths, hlength, hi, hat⟩ := hrun
  obtain ⟨-, -, hinside⟩ := subroutine_returns_behind_call hm
  have hdeep : ∀ d ∈ inside.depths calls, m.stack.length + 1 ≤ d := by
    rw [hdepths, hempty]
    decide
  obtain ⟨-, hreturn, -⟩ := hinside calls (by decide) hdeep
  have hlast : ¬ m.pc.toNat + 2 ≤ maxAddress := by
    rw [hpc]
    decide
  have he := hreturn (by rw [hempty]; exact hlength) hi
  rw [if_neg hlast, hpc] at he
  refine ⟨hm, hpc, hdepths, ?_⟩
  rw [← hat]
  exact he

end ChipEight
