import ChipEight.Proofs.Happenings
import ChipEight.Proofs.Untouched

/-!
# Pressed keys

A key of the machine is down exactly if the last event for its place on the keyboard was a press
(`Console.isDown_undergoAll`).  Two things can spoil this, and both are hotkeys that replace the
machine: one that restores a saved state, with the keys that were down when it was saved, and one
that loads the program again, with all keys up (`Happening.SparesKeys`).

Nothing else reaches the keys.  No instruction writes them, whatever the program is
(`Machine.keypad_serveAll`), and no call does that a console makes to its pacer for a frame, for
a change of the rate or for the window (`Console.calls_spare_keys`).  A place on the keyboard is
that of one key at most, and never that of a hotkey.
-/

namespace ChipEight

/-! ## Places on the keyboard -/

namespace KeyCode

/-- A key is found at its place and nowhere else. -/
theorem digit?_eq_some_iff {code : KeyCode} {k : Digit} :
    code.digit? = some k ↔ code = padLayout.get k := by
  constructor
  · intro h
    have hplace := List.find?_some h
    exact (eq_of_beq hplace).symm
  · rintro rfl
    exact digit?_padLayout k

theorem hotkey?_padLayout (k : Digit) : (padLayout.get k).hotkey? = none := by
  rw [Option.eq_none_iff_forall_ne_some]
  intro h hh
  have hnone := digit?_of_hotkey? hh
  rw [digit?_padLayout] at hnone
  cases hnone

end KeyCode

/-! ## Events for a key -/

/-- The event is for key `k` of the machine: it is for the place of the key, and does not mean
escape. -/
def KeyEvent.IsFor (e : KeyEvent) (k : Digit) : Prop :=
  e.escape = false ∧ e.code = some (padLayout.get k)

instance (e : KeyEvent) (k : Digit) : Decidable (e.IsFor k) :=
  inferInstanceAs (Decidable (_ ∧ _))

/-- Where key `k` is moved to, if it is. -/
def Happening.moves? {D : Type} (k : Digit) : Happening D → Option Bool
  | .event e => e.padKey?.bind fun moved => if moved.1 = k then some moved.2 else none
  | .devices _ | .disk _ => none

/-- What neither restores a machine nor loads its program again. -/
def Happening.SparesKeys {D : Type} : Happening D → Prop
  | .event e => e.hotkey? ≠ some .restore ∧ e.hotkey? ≠ some .reload
  | .devices _ | .disk _ => True

instance {D : Type} (h : Happening D) : Decidable h.SparesKeys :=
  match h with
  | .event e => inferInstanceAs (Decidable (e.hotkey? ≠ some .restore ∧ e.hotkey? ≠ some .reload))
  | .devices _ => .isTrue trivial
  | .disk _ => .isTrue trivial

namespace Event

variable {e : KeyEvent} {k : Digit}

theorem padKey?_eq_some_iff {down : Bool} :
    (Event.key e).padKey? = some (k, down) ↔ e.IsFor k ∧ e.down = down := by
  simp only [padKey?, KeyEvent.IsFor]
  cases e.escape with
  | true => simp
  | false =>
      cases e.code with
      | none => simp
      | some code =>
          simp only [Option.bind_some, Bool.false_eq_true, if_false, Option.map_eq_some_iff,
            KeyCode.digit?_eq_some_iff, Prod.mk.injEq, Option.some.injEq, true_and]
          constructor
          · rintro ⟨j, hplace, rfl, hdown⟩
            exact ⟨hplace, hdown⟩
          · rintro ⟨hplace, hdown⟩
            exact ⟨k, hplace, rfl, hdown⟩

theorem padKey?_eq_none_of_place (h : ∀ k, e.code ≠ some (padLayout.get k)) :
    (Event.key e).padKey? = none := by
  rw [Option.eq_none_iff_forall_ne_some]
  rintro ⟨k, down⟩ hk
  exact h k (padKey?_eq_some_iff.mp hk).1.2

/-- A key of the machine is no hotkey. -/
theorem hotkey?_of_place (h : e.code = some (padLayout.get k)) : (Event.key e).hotkey? = none := by
  rw [hotkey?, h, Option.bind_some, KeyCode.hotkey?_padLayout, ite_self]

/-- A hotkey goes down and was not held. -/
theorem hotkey?_of_again_or_up (h : e.again = true ∨ e.down = false) :
    (Event.key e).hotkey? = none := by
  apply if_neg
  rintro ⟨-, hdown, hagain⟩
  rcases h with h | h
  · rw [h] at hagain
    cases hagain
  · rw [h] at hdown
    cases hdown

end Event

namespace Happening

variable {D : Type} {h : Happening D} {k : Digit}

theorem moves?_eq_some_iff {down : Bool} :
    h.moves? k = some down ↔ ∃ e, h = .event (.key e) ∧ e.IsFor k ∧ e.down = down := by
  constructor
  · intro hm
    cases h with
    | event e =>
        obtain ⟨⟨j, moved⟩, hkey, hif⟩ := Option.bind_eq_some_iff.mp hm
        dsimp only at hif
        split at hif
        next hj =>
          cases hif
          subst hj
          cases e with
          | key e => exact ⟨e, rfl, Event.padKey?_eq_some_iff.mp hkey⟩
          | _ => cases hkey
        next => cases hif
    | _ => cases hm
  · rintro ⟨e, rfl, hfor⟩
    rw [moves?, Event.padKey?_eq_some_iff.mpr hfor]
    exact if_pos rfl

theorem moves?_eq_none_iff :
    h.moves? k = none ↔ ∀ e, h = .event (.key e) → ¬ e.IsFor k := by
  rw [Option.eq_none_iff_forall_ne_some]
  constructor
  · rintro hm e rfl hfor
    exact hm e.down (moves?_eq_some_iff.mpr ⟨e, rfl, hfor, rfl⟩)
  · intro hm down hdown
    obtain ⟨e, rfl, hfor, -⟩ := moves?_eq_some_iff.mp hdown
    exact hm e rfl hfor

end Happening

/-! ## Calls that touch the keys -/

/-- True for the calls to a pacer that may change the keys. -/
def PacerCall.touchesKeys : PacerCall → Bool
  | .machine c => c.touches .keypad
  | .load _ => true
  | _ => false

theorem Call.Passive.touches_keypad {c : Call} (h : c.Passive) : c.touches .keypad = false := by
  rcases h with rfl | rfl
  · rfl
  · rfl

namespace Pacer

variable {p : Pacer}

theorem touches_keypad_of_mem_machineCalls {c : PacerCall} (hc : c.touchesKeys = false) {d : Call}
    (hd : d ∈ p.machineCalls c) : d.touches .keypad = false := by
  rcases mem_machineCalls_cases hd with hpassive | rfl | ⟨program, rfl, -⟩
  · exact hpassive.touches_keypad
  · exact hc
  · cases hc

theorem keypad_serveAll {cs : List PacerCall} (h : ∀ c ∈ cs, c.touchesKeys = false) :
    (p.serveAll cs).machine.keypad = p.machine.keypad := by
  rw [machine_serveAll]
  exact Machine.keypad_serveAll
    (forall_mem_allMachineCalls (fun _ _ hc _ => touches_keypad_of_mem_machineCalls hc) h)

end Pacer

namespace Console

variable {D : Type} {c : Console D} {k : Digit}

/-- A console starts with all keys up. -/
theorem isDown_started (o : Options) (program : List UInt8) (around : Surroundings D) (k : Digit) :
    (started o program around).machine.isDown k = false := by
  have hkeypad : (started o program around).machine.keypad = Vector.replicate 16 false := by
    refine (congrArg Machine.keypad (Pacer.machine_runLoad _ program)).trans ?_
    rcases Procedure.load_cases program (Pacer.fresh _ o.rate).machine with ⟨_, hr⟩ | hr
    · rw [Procedure.after_of_run_error hr, Pacer.fresh, Pacer.start, Machine.boot]
    · rw [Procedure.after_of_run_ok hr, Machine.store, Machine.reset, Machine.boot]
  rw [Machine.isDown, hkeypad, Bank.get_eq_getElem, Vector.getElem_replicate]

variable [FileSystem D]

/-- An event that is for no key of the machine does not reach the keys. -/
theorem calls_spare_keys {e : Event} (hkey : e.padKey? = none)
    (he : (Happening.event e : Happening D).SparesKeys) :
    ∀ d ∈ c.calls e, d.touchesKeys = false := by
  obtain ⟨hrestore, hreload⟩ := he
  cases e with
  | frame seconds =>
      rw [calls, frameCalls]
      refine List.forall_mem_cons.mpr ⟨rfl, ?_⟩
      split
      · exact List.forall_mem_nil _
      · refine List.forall_mem_cons.mpr ⟨rfl, ?_⟩
        split
        · exact List.forall_mem_singleton.mpr rfl
        · exact List.forall_mem_nil _
  | key e =>
      rw [calls, hkey]
      · cases hh : (Event.key e).hotkey? with
        | none => exact List.forall_mem_nil _
        | some h =>
            -- the two hotkeys that replace the machine are left out
            cases h with
            | save => exact List.forall_mem_nil _
            | restore => exact absurd hh hrestore
            | reload => exact absurd hh hreload
            | faster | slower => exact List.forall_mem_singleton.mpr rfl
      · intro seconds he
        cases he
  | _ => exact List.forall_mem_nil _

theorem keypad_react_of_none {e : Event} (hkey : e.padKey? = none)
    (he : (Happening.event e : Happening D).SparesKeys) :
    (c.react e).machine.keypad = c.machine.keypad := by
  rw [machine, pacer_react]
  exact Pacer.keypad_serveAll (calls_spare_keys hkey he)

/-- An event for a key of the machine moves that key and no other. -/
theorem keypad_react_of_some {e : Event} {j : Digit} {down : Bool}
    (hkey : e.padKey? = some (j, down)) :
    (c.react e).machine.keypad = c.machine.keypad.put j down := by
  have hcalls : c.calls e = [.machine (.setKey j down)] := by
    cases e with
    | key e =>
        rw [calls, hkey]
        intro seconds he
        cases he
    | _ => cases hkey
  rw [machine, pacer_react, hcalls]
  rfl

/-! ## Runs -/

/-- A happening moves the key or leaves it. -/
theorem isDown_undergo {h : Happening D} (hh : h.SparesKeys) :
    (c.undergo h).machine.isDown k = (h.moves? k).getD (c.machine.isDown k) := by
  cases h with
  | devices broken => rfl
  | disk change => rfl
  | event e =>
      rw [Happening.moves?, undergo]
      cases hkey : e.padKey? with
      | none =>
          rw [Machine.isDown, keypad_react_of_none hkey hh]
          rfl
      | some moved =>
          rw [Machine.isDown, keypad_react_of_some hkey, Bank.get_put, Option.bind_some]
          by_cases hj : moved.1 = k
          · rw [if_pos hj, if_pos hj]
            rfl
          · rw [if_neg hj, if_neg hj]
            rfl

/-- Behind a run a key is where it was moved to last, or where it was before. -/
theorem isDown_undergoAll {hs : List (Happening D)} (hhs : ∀ h ∈ hs, h.SparesKeys) :
    (c.undergoAll hs).machine.isDown k =
      (hs.reverse.findSome? (Happening.moves? k)).getD (c.machine.isDown k) := by
  induction hs generalizing c with
  | nil => rfl
  | cons h hs ih =>
      -- the first happening counts only if none of the others moves the key
      obtain ⟨hh, hhs⟩ := List.forall_mem_cons.mp hhs
      have hlast : [h].findSome? (Happening.moves? k) = h.moves? k := by
        rw [List.findSome?_singleton]
      rw [List.reverse_cons, List.findSome?_append, hlast, Option.getD_or, ← isDown_undergo hh]
      exact ih hhs

/-- A key is down behind a run, in the beginning of which it was up, if the last event for it was
a press. -/
theorem isDown_undergoAll_iff {hs : List (Happening D)} (hhs : ∀ h ∈ hs, h.SparesKeys)
    (hup : c.machine.isDown k = false) :
    (c.undergoAll hs).machine.isDown k = true ↔
      ∃ early e late, hs = early ++ .event (.key e) :: late ∧ e.IsFor k ∧ e.down = true ∧
        ∀ e', .event (.key e') ∈ late → ¬ e'.IsFor k := by
  rw [isDown_undergoAll hhs, hup, Option.getD_eq_iff]
  simp only [Bool.false_eq_true, and_false, or_false]
  rw [List.findSome?_eq_some_iff]
  constructor
  · rintro ⟨late, h, early, hsplit, hmoves, hlate⟩
    obtain ⟨e, rfl, hfor, hdown⟩ := Happening.moves?_eq_some_iff.mp hmoves
    refine ⟨early.reverse, e, late.reverse, ?_, hfor, hdown, ?_⟩
    · rw [← List.reverse_inj, hsplit]
      simp
    · intro e' he'
      exact Happening.moves?_eq_none_iff.mp (hlate _ (List.mem_reverse.mp he')) e' rfl
  · rintro ⟨early, e, late, rfl, hfor, hdown, hlate⟩
    refine ⟨late.reverse, .event (.key e), early.reverse, by simp,
      Happening.moves?_eq_some_iff.mpr ⟨e, rfl, hfor, hdown⟩, ?_⟩
    intro h hh
    rw [Happening.moves?_eq_none_iff]
    rintro e' rfl
    exact hlate e' (List.mem_reverse.mp hh)

/-! ## One event -/

/-- An event that is neither for a key of the machine nor for a hotkey does nothing, but that
escape asks for the end. -/
theorem turn_of_idle {e : KeyEvent} (hkey : (Event.key e).padKey? = none)
    (hhot : (Event.key e).hotkey? = none) :
    c.turn (.key e) = { console := if e.escape then c.exit else c } := by
  have hh : c.handle (.key e) = { console := if e.escape then c.exit else c } := by
    rcases c.handle_key_cases e with ⟨j, hp, -⟩ | ⟨h, -, hp, -⟩ | ⟨-, -, hh⟩
    · rw [hkey] at hp
      cases hp
    · rw [hhot] at hp
      cases hp
    · exact hh
  rw [turn_of_handled (by rw [hh]), hh]

/-- An event at the place of a key moves the key, unless it means escape. -/
theorem turn_of_place {e : KeyEvent} (hplace : e.code = some (padLayout.get k)) :
    c.turn (.key e) =
      { console := if e.escape then c.exit else { c with pacer := c.pacer.setKey k e.down } } := by
  cases he : e.escape with
  | true =>
      have hkey : (Event.key e).padKey? = none := by rw [Event.padKey?, if_pos he]
      rw [turn_of_idle hkey (Event.hotkey?_of_place hplace), he]
      rfl
  | false =>
      have hh : c.handle (.key e) =
          { console := { c with pacer := c.pacer.setKey k e.down } } := by
        simp only [handle, he, pressKey, hplace, digit?_padLayout]
        rfl
      rw [turn_of_handled (by rw [hh]), hh]
      rfl

/-- From its start on, and as long as no state is restored and the program is not loaded again,
the keys of a console mirror the keyboard: a key is down exactly if the last event for its place
that did not mean escape was a press.  Events for other places leave the keys alone.  An event at
the place of a key moves that key and does nothing else, and one that reports a held key once more
or a key that goes up never does what a hotkey does. -/
theorem keypad_mirrors_keyboard {o : Options} {program : List UInt8} {around : Surroundings D}
    {start : Console D} (hstart : Console.start o program around = .ok start)
    {hs : List (Happening D)} (hhs : ∀ h ∈ hs, h.SparesKeys) :
    (∀ k, (start.undergoAll hs).machine.isDown k = true ↔
      ∃ early e late, hs = early ++ .event (.key e) :: late ∧ e.IsFor k ∧ e.down = true ∧
        ∀ e', .event (.key e') ∈ late → ¬ e'.IsFor k) ∧
    ∀ (c : Console D) (e : KeyEvent),
      ((∀ k, e.code ≠ some (padLayout.get k)) →
        (Happening.event (.key e) : Happening D).SparesKeys →
          (c.react (.key e)).machine.keypad = c.machine.keypad) ∧
      (∀ k, e.code = some (padLayout.get k) →
        (Event.key e).hotkey? = none ∧
        c.turn (.key e) =
          { console :=
              if e.escape then c.exit else { c with pacer := c.pacer.setKey k e.down } }) ∧
      (e.again = true ∨ e.down = false →
        (Event.key e).hotkey? = none ∧
        ((∀ k, e.code ≠ some (padLayout.get k)) →
          c.turn (.key e) = { console := if e.escape then c.exit else c })) := by
  constructor
  · intro k
    obtain ⟨-, -, rfl⟩ := start_eq_ok_iff.mp hstart
    exact isDown_undergoAll_iff hhs (isDown_started o program around k)
  · intro c e
    refine ⟨?_, ?_, ?_⟩
    · intro hplace hspares
      exact keypad_react_of_none (Event.padKey?_eq_none_of_place hplace) hspares
    · intro k hplace
      exact ⟨Event.hotkey?_of_place hplace, turn_of_place hplace⟩
    · intro hagain
      have hhot := Event.hotkey?_of_again_or_up hagain
      exact ⟨hhot, fun hplace => turn_of_idle (Event.padKey?_eq_none_of_place hplace) hhot⟩

/-- A key is held while the program waits for one.  Escape goes up at its place, another key goes
down and up, a state is saved, and the key that would restore it is reported as held.  The first
key is still down, the other one is not, and holding on does nothing. -/
theorem held_key_stays_down :
    let options : Options := ⟨"x.ch8", 12, none, none⟩
    let program := [0xF0, 0x0A]
    let around : Surroundings Shelf := ⟨[], Keystream.seedKey 1, Shelf.empty⟩
    let press (name : String) : KeyEvent := ⟨some ⟨name⟩, true, false, false⟩
    let escape : KeyEvent := ⟨some ⟨"KeyX"⟩, false, true, false⟩
    let release : KeyEvent := ⟨some ⟨"KeyV"⟩, false, false, false⟩
    let held : KeyEvent := ⟨some ⟨"F9"⟩, true, false, true⟩
    let c := (started options program around).undergoAll
      [.event .resumed, .event (.key (press "KeyX")), .event (.frame 1.0),
        .event (.key (press "KeyV")), .event (.key escape), .event (.key (press "F5")),
        .event (.key release), .event (.key held)]
    c.machine.isDown 0 = true ∧ c.machine.isDown 15 = false ∧
      c.turn (.key held) = { console := c } := by
  intro options program around press escape release held c
  have hstart : Console.start options program around = .ok (started options program around) :=
    start_eq_ok_iff.mpr ⟨List.not_mem_nil, by decide, rfl⟩
  let late : List (Happening Shelf) := [.event (.frame 1.0), .event (.key (press "KeyV")),
    .event (.key escape), .event (.key (press "F5")), .event (.key release), .event (.key held)]
  have hspares : ∀ h ∈ .event .resumed :: .event (.key (press "KeyX")) :: late, h.SparesKeys := by
    decide +kernel
  have hlate : ∀ h ∈ late, h.moves? 0 = none := by decide +kernel
  have hup : c.machine.isDown 15 = false := by decide +kernel
  obtain ⟨hkeys, hevents⟩ := keypad_mirrors_keyboard hstart hspares
  refine ⟨?_, hup, ?_⟩
  · refine (hkeys 0).mpr ⟨[.event .resumed], press "KeyX", late, rfl, by decide, rfl, ?_⟩
    intro e' he'
    exact Happening.moves?_eq_none_iff.mp (hlate _ he') e' rfl
  · obtain ⟨-, hidle⟩ := (hevents c held).2.2 (Or.inl rfl)
    rw [hidle (by decide), if_neg Bool.false_ne_true]

end Console

end ChipEight
