import ChipEight.Console.Turn
import ChipEight.Proofs.Reachable

/-!
# What happens to a console

A window tells its console of events.  Between two events the surroundings may change as
well: a device breaks or works again, and something else writes files or takes them away.
A `Happening` is any of these, and a console is `Reachable` when it was started, in any
surroundings, and some list of happenings led to it.

A key event is for a key of the machine (`Event.padKey?`), for a hotkey
(`Event.hotkey?`), or for nothing, and never for two of these (`handle_key_cases`).

A console does nothing to its pacer but call it.  `Console.calls` lists the calls it
makes at an event, and `pacer_react` says that they are all.  So a machine of a console
is one that a pacer can come to have, and what holds of those holds of it
(`Reachable.machine`).
-/

namespace ChipEight

/-! ## Happenings -/

/-- What happens to a console. -/
inductive Happening (D : Type) where
  | event (e : Event)
  /-- From now on these devices are broken, and no others. -/
  | devices (broken : List Device)
  /-- Something else changed the files. -/
  | disk (change : D → D)

namespace Event

/-- The key of the machine that goes down or up. -/
def padKey? : Event → Option (Digit × Bool)
  | .key e => if e.escape then none else (e.code.bind KeyCode.digit?).map (·, e.down)
  | _ => none

/-- The hotkey that is pressed: it goes down and was not held. -/
def hotkey? : Event → Option Hotkey
  | .key e =>
      if e.escape = false ∧ e.down ∧ e.again = false then e.code.bind KeyCode.hotkey? else none
  | _ => none

end Event

namespace Console

variable {D : Type} [FileSystem D]

/-- The console behind a happening. -/
def undergo (c : Console D) : Happening D → Console D
  | .event e => c.react e
  | .devices broken => { c with broken }
  | .disk change => { c with disk := change c.disk }

/-- The console behind a list of happenings. -/
def undergoAll (c : Console D) (hs : List (Happening D)) : Console D := hs.foldl undergo c

/-- A console that can come to be. -/
def Reachable (c : Console D) : Prop :=
  ∃ o program around start hs,
    Console.start o program around = .ok start ∧ start.undergoAll hs = c

theorem undergoAll_append (c : Console D) (hs hs' : List (Happening D)) :
    c.undergoAll (hs ++ hs') = (c.undergoAll hs).undergoAll hs' := List.foldl_append

end Console

/-! ## Keys -/

/-- No hotkey is at the place of a key of the machine. -/
theorem KeyCode.digit?_of_hotkey? {code : KeyCode} {h : Hotkey} (hh : code.hotkey? = some h) :
    code.digit? = none := by
  obtain ⟨name⟩ := code
  unfold KeyCode.hotkey? at hh
  split at hh
  case h_8 => cases hh
  all_goals
    next he =>
      cases he
      decide +kernel

namespace Console

variable {D : Type} {c : Console D}

/-! ## The start -/

/-- A console as it starts.  Its pacer is a fresh one that was given the program. -/
def started (o : Options) (program : List UInt8) (around : Surroundings D) : Console D where
  pacer := (Pacer.fresh (o.streamKey around.entropy) o.rate).serve (.load program)
  program
  statePath := o.stateFile.getD (StateFile.defaultPath o.programPath)
  glow := Glow.dark
  dirty := true
  playing := false
  window := none
  surface := none
  failure := none
  exits := 0
  broken := around.broken
  disk := around.disk

/-- A console starts if it can be heard and its program fits. -/
theorem start_eq_ok_iff {o : Options} {program : List UInt8} {around : Surroundings D} :
    start o program around = .ok c ↔
      .audio ∉ around.broken ∧ program.length ≤ maxProgramSize ∧ c = started o program around := by
  rw [start, started, Machine.load_eq, Pacer.serve, Pacer.runLoad, Procedure.run_load]
  by_cases haudio : Device.audio ∈ around.broken
  · rw [if_pos haudio]
    constructor
    · intro h
      cases h
    · intro h
      exact absurd haudio h.1
  · rw [if_neg haudio]
    by_cases hfits : maxProgramSize < program.length
    · rw [if_pos hfits]
      constructor
      · intro h
        cases h
      · intro h
        exact absurd hfits (Nat.not_lt.mpr h.2.1)
    · rw [if_neg hfits, if_neg hfits]
      constructor
      · intro h
        cases h
        exact ⟨haudio, Nat.not_lt.mp hfits, rfl⟩
      · rintro ⟨-, -, rfl⟩
        rfl

/-! ## Windows -/

/-- A window that cannot be created leaves everything, and a surface that cannot be
created leaves all but the window.  A new surface has nothing on it. -/
theorem resume_cases (c : Console D) :
    (∃ window f, c.resume = { console := { c with window }, failure := some f }) ∨
    ∃ window s, s.frame = Frame.clear ∧
      c.resume = { console := { c with window, surface := some s } } := by
  unfold resume
  split
  · exact Or.inl ⟨c.window, _, rfl⟩
  · dsimp only
    split
    · exact Or.inl ⟨_, _, rfl⟩
    · exact Or.inr ⟨_, _, rfl, rfl⟩

/-- A surface with a new size has to be painted again. -/
theorem resize_cases (c : Console D) (width height : Nat) :
    (∃ failure, c.resize width height = { console := c, failure }) ∨
    ∃ s, c.surface = some s ∧
      c.resize width height =
        { console := { c with surface := some { s with width, height }, dirty := true } } := by
  unfold resize
  split
  · exact Or.inl ⟨none, rfl⟩
  next s hs =>
    split
    · exact Or.inl ⟨_, rfl⟩
    · exact Or.inr ⟨s, hs, rfl⟩

/-! ## Frames -/

/-- True if a frame has to be painted: the screen was drawn on, the picture fades, or
the surface lost it. -/
def needsPaint (c : Console D) : Bool := c.machine.redraw || c.glow.isFading || c.dirty

/-- A frame that has to be painted is, if there is a surface. -/
theorem paint_cases (c : Console D) (seconds : Float32) :
    ((c.needsPaint = false ∨ c.surface = none) ∧ c.paint seconds = (false, c)) ∨
    ∃ s, c.needsPaint = true ∧ c.surface = some s ∧
      c.paint seconds =
        (true,
          { c with
            pacer := { c.pacer with machine := c.machine.clearRedraw }
            glow := c.glow.decay c.machine.screen seconds
            surface := some { s with frame := (c.glow.decay c.machine.screen seconds).frame }
            dirty := false }) := by
  rw [paint]
  change (_ ∧ (if c.needsPaint = true then _ else _) = _) ∨
    ∃ s, _ ∧ _ ∧ (if c.needsPaint = true then _ else _) = _
  cases hn : c.needsPaint with
  | false => exact Or.inl ⟨Or.inl rfl, rfl⟩
  | true =>
      cases hs : c.surface with
      | none => exact Or.inl ⟨Or.inr rfl, rfl⟩
      | some s => exact Or.inr ⟨s, rfl, rfl, rfl⟩

/-- Painting touches the machine, the picture and the mark of a lost one at most. -/
theorem paint_eq (c : Console D) (seconds : Float32) :
    ∃ pacer glow surface dirty,
      (c.paint seconds).2 = { c with pacer, glow, surface, dirty } := by
  rcases c.paint_cases seconds with ⟨-, h⟩ | ⟨s, -, -, h⟩
  · exact ⟨_, _, _, _, congrArg Prod.snd h⟩
  · exact ⟨_, _, _, _, congrArg Prod.snd h⟩

/-- Showing the frame touches the count of the surface at most. -/
theorem render_eq (c : Console D) :
    ∃ surface, c.render.2 = { c with surface } ∧
      surface.map Surface.frame = c.surface.map Surface.frame := by
  unfold render
  split
  · exact ⟨c.surface, rfl, rfl⟩
  next s hs =>
    split
    · exact ⟨c.surface, rfl, rfl⟩
    · exact ⟨some { s with renders := s.renders + 1 }, rfl, by rw [hs]; rfl⟩

/-- The console behind an update that did not fail, with its speaker set. -/
def updated (c : Console D) (pacer : Pacer) : Console D := { c with pacer }.playTones

theorem playTones_eq (c : Console D) (pacer : Pacer) :
    { c with pacer }.playTones = c.updated pacer := rfl

/-- A frame ends when the machine fails.  If it does not, the frame is painted if it has
to be, and what comes then changes neither the machine nor the picture. -/
theorem frame_cases (c : Console D) (seconds : Float32) :
    (∃ f pacer, c.pacer.update seconds = (.error f, pacer) ∧
      c.frame seconds =
        { console := { c with pacer }
          failure := some (.execution f)
          reports := [.pacer (.cycleFailed f)] }) ∨
    ∃ outcome pacer window surface, c.pacer.update seconds = (.ok outcome, pacer) ∧
      (c.frame seconds).console =
        { ((c.updated pacer).paint seconds).2 with window, surface } ∧
      surface.map Surface.frame =
        ((c.updated pacer).paint seconds).2.surface.map Surface.frame := by
  cases hu : c.pacer.update seconds with
  | mk result pacer =>
      cases result with
      | error f => exact Or.inl ⟨f, pacer, rfl, by simp only [frame, hu]⟩
      | ok outcome =>
          refine Or.inr ⟨outcome, pacer, ?_⟩
          cases hp : (c.updated pacer).paint seconds with
          | mk painted d =>
              cases painted with
              | false =>
                  have hframe : c.frame seconds = { console := d.requestRedraw } := by
                    simp only [frame, hu, playTones_eq, hp]
                  rw [hframe]
                  exact ⟨_, d.surface, rfl, rfl, rfl⟩
              | true =>
                  obtain ⟨surface, hrender, hsurface⟩ := d.render_eq
                  cases hr : d.render with
                  | mk failure d' =>
                      rw [hr] at hrender
                      subst hrender
                      cases failure with
                      | some failure =>
                          have hframe : c.frame seconds =
                              { console := { d with surface }, failure := some failure } := by
                            simp only [frame, hu, playTones_eq, hp, hr]
                          rw [hframe]
                          exact ⟨_, surface, rfl, rfl, hsurface⟩
                      | none =>
                          have hframe : c.frame seconds =
                              { console := { d with surface }.requestRedraw } := by
                            simp only [frame, hu, playTones_eq, hp, hr]
                          rw [hframe]
                          exact ⟨_, surface, rfl, rfl, hsurface⟩

/-- The calls of a frame: time passes, the tones are collected, and the redraw flag is
cleared if the frame is painted.  A failure leaves out the rest. -/
def frameCalls (c : Console D) (seconds : Float32) : List PacerCall :=
  .update seconds ::
    match c.pacer.update seconds with
    | (.error _, _) => []
    | (.ok _, pacer) =>
        .machine .takeTones ::
          if ((c.updated pacer).paint seconds).1 then [.machine .clearRedraw] else []

theorem pacer_paint (c : Console D) (seconds : Float32) :
    (c.paint seconds).2.pacer =
      c.pacer.serveAll (if (c.paint seconds).1 then [.machine .clearRedraw] else []) := by
  rcases c.paint_cases seconds with ⟨-, h⟩ | ⟨s, -, -, h⟩
  · rw [h]
    rfl
  · rw [h]
    rfl

theorem pacer_frame (c : Console D) (seconds : Float32) :
    (c.frame seconds).console.pacer = c.pacer.serveAll (c.frameCalls seconds) := by
  have hserve : c.pacer.serve (.update seconds) = (c.pacer.update seconds).2 := rfl
  rcases c.frame_cases seconds with ⟨f, pacer, hu, hf⟩ | ⟨outcome, pacer, _, _, hu, hf, -⟩
  · rw [hu] at hserve
    rw [hf, frameCalls, hu]
    exact hserve.symm
  · rw [hu] at hserve
    rw [hf, frameCalls, hu]
    refine ((c.updated pacer).pacer_paint seconds).trans ?_
    simp only [Pacer.serveAll, List.foldl_cons, hserve]
    rfl

variable [FileSystem D] {e : Event}

/-! ## Turns -/

theorem turn_of_handled (h : (c.handle e).failure = none) : c.turn e = c.handle e := by
  simp only [turn, h]

theorem turn_of_failed {f : Failure} (h : (c.handle e).failure = some f) :
    c.turn e =
      { c.handle e with
        console := { (c.handle e).console with failure := some f }.exit } := by
  simp only [turn, h]

theorem failure_turn (c : Console D) (e : Event) : (c.turn e).failure = (c.handle e).failure := by
  cases h : (c.handle e).failure with
  | none => rw [turn_of_handled h, h]
  | some f =>
      rw [turn_of_failed h]
      exact h

/-- An event leaves what it does before its failure is noted, the note apart. -/
theorem react_eq (c : Console D) (e : Event) :
    c.react e =
      { (c.handle e).console with failure := (c.react e).failure, exits := (c.react e).exits } := by
  cases h : (c.handle e).failure with
  | none => rw [react, turn_of_handled h]
  | some f =>
      rw [react, turn_of_failed h]
      rfl

/-- A key event is for a key of the machine, for a hotkey, or for neither. -/
theorem handle_key_cases (c : Console D) (e : KeyEvent) :
    (∃ k, (Event.key e).padKey? = some (k, e.down) ∧ (Event.key e).hotkey? = none ∧
      c.handle (.key e) = { console := { c with pacer := c.pacer.setKey k e.down } }) ∨
    (∃ h, (Event.key e).padKey? = none ∧ (Event.key e).hotkey? = some h ∧
      c.handle (.key e) = c.pressHotkey h) ∨
    ((Event.key e).padKey? = none ∧ (Event.key e).hotkey? = none ∧
      c.handle (.key e) = { console := if e.escape then c.exit else c }) := by
  simp only [Event.padKey?, Event.hotkey?, handle, pressKey]
  cases e.escape with
  | true => simp
  | false =>
      cases e.code with
      | none => simp
      | some code =>
          simp only [Option.bind_some, Bool.false_eq_true, if_false, true_and]
          cases hh : code.hotkey? with
          | none => cases code.digit? <;> simp
          | some h =>
              rw [KeyCode.digit?_of_hotkey? hh]
              by_cases hp : e.down = true ∧ e.again = false
              · simp [hp]
              · simp [hp]

theorem failure_pressHotkey (c : Console D) (h : Hotkey) : (c.pressHotkey h).failure = none := by
  rw [pressHotkey]
  rcases c.hotkey h with ⟨_ | _, _⟩ <;> rfl

/-- What a hotkey does is the whole turn. -/
theorem turn_of_hotkey {h : Hotkey} (he : e.hotkey? = some h) : c.turn e = c.pressHotkey h := by
  have hh : c.handle e = c.pressHotkey h := by
    cases e with
    | key e =>
        rcases c.handle_key_cases e with ⟨k, -, hk, -⟩ | ⟨k, -, hk, hh⟩ | ⟨-, hk, -⟩
        · rw [he] at hk
          cases hk
        · rw [he] at hk
          cases hk
          exact hh
        · rw [he] at hk
          cases hk
    | _ => cases he
  rw [turn_of_handled, hh]
  rw [hh]
  exact c.failure_pressHotkey h

/-! ## Hotkeys -/

/-- A machine that is saved changes files at most. -/
theorem pressHotkey_save (c : Console D) :
    ∃ disk reports, c.pressHotkey .save = { console := { c with disk }, reports } := by
  simp only [pressHotkey, hotkey]
  rcases FileSystem.write c.disk c.statePath c.machine.save with ⟨cause | _, disk⟩
  · exact ⟨disk, _, rfl⟩
  · exact ⟨disk, _, rfl⟩

/-- A state that was restored is all that is new. -/
theorem pressHotkey_restore (c : Console D) :
    (∃ cause, c.pressHotkey .restore = { console := c, reports := [.hotkeyFailed cause] }) ∨
    ∃ m, c.pressHotkey .restore =
      { console := c.setMachine m, reports := [.stateLoaded c.statePath] } := by
  simp only [pressHotkey, hotkey]
  cases FileSystem.read c.disk c.statePath with
  | error cause => exact Or.inl ⟨_, rfl⟩
  | ok text =>
      dsimp only
      rcases Procedure.restore_cases text c.machine with ⟨cause, hr⟩ | ⟨s, -, hr⟩
      · rw [hr]
        exact Or.inl ⟨_, rfl⟩
      · rw [hr]
        exact Or.inr ⟨_, rfl⟩

/-- A program that was loaded again starts anew. -/
theorem pressHotkey_reload (c : Console D) :
    (∃ cause, c.pressHotkey .reload = { console := c, reports := [.hotkeyFailed cause] }) ∨
    c.pressHotkey .reload =
      { console := { c with
          pacer := { c.pacer with
            machine := c.machine.reset.store programStart c.program, backlog := 0.0 } } } := by
  have hmachine : c.pacer.machine = c.machine := rfl
  simp only [pressHotkey, hotkey, Pacer.runLoad, hmachine]
  rcases Procedure.load_cases c.program c.machine with ⟨o, hr⟩ | hr
  · rw [hr]
    exact Or.inl ⟨_, rfl⟩
  · rw [hr]
    exact Or.inr rfl

/-- The other two hotkeys change the rate. -/
theorem pressHotkey_rate (c : Console D) {h : Hotkey} (hh : h = .faster ∨ h = .slower) :
    ∃ delta, c.pressHotkey h =
      { console := { c with pacer := c.pacer.adjustRate delta }
        reports := [.rateChanged (c.pacer.adjustRate delta).rate] } := by
  rcases hh with rfl | rfl
  · exact ⟨rateStep, rfl⟩
  · exact ⟨-rateStep, rfl⟩

/-! ## Calls to the pacer -/

/-- The calls of a hotkey.  Nothing can be restored from a file that is not read. -/
def hotkeyCalls (c : Console D) : Hotkey → List PacerCall
  | .save => []
  | .restore =>
      match FileSystem.read c.disk c.statePath with
      | .error _ => []
      | .ok text => [.machine (.restore text)]
  | .reload => [.load c.program]
  | .faster => [.adjustRate rateStep]
  | .slower => [.adjustRate (-rateStep)]

/-- The calls a console makes to its pacer at an event. -/
def calls (c : Console D) : Event → List PacerCall
  | .frame seconds => c.frameCalls seconds
  | e =>
      match e.padKey?, e.hotkey? with
      | some (k, down), _ => [.machine (.setKey k down)]
      | none, some h => c.hotkeyCalls h
      | none, none => []

theorem pacer_pressHotkey (c : Console D) (h : Hotkey) :
    (c.pressHotkey h).console.pacer = c.pacer.serveAll (c.hotkeyCalls h) := by
  cases h with
  | save =>
      obtain ⟨disk, reports, hs⟩ := c.pressHotkey_save
      rw [hs]
      rfl
  | restore =>
      simp only [pressHotkey, hotkey, hotkeyCalls]
      cases FileSystem.read c.disk c.statePath with
      | error cause => rfl
      | ok text =>
          -- what is left of the machine is what the call leaves, taken or refused
          have hafter : c.pacer.serveAll [.machine (.restore text)] =
              { c.pacer with machine := (Procedure.restore text).after c.machine } := rfl
          dsimp only
          rw [hafter, Procedure.after]
          cases (Procedure.restore text).run c.machine <;> rfl
  | reload =>
      have hafter : c.pacer.serveAll [.load c.program] = (c.pacer.runLoad c.program).2 := rfl
      simp only [pressHotkey, hotkey, hotkeyCalls]
      rw [hafter]
      rcases c.pacer.runLoad c.program with ⟨cause | _, pacer⟩ <;> rfl
  | faster => rfl
  | slower => rfl

theorem pacer_react (c : Console D) (e : Event) :
    (c.react e).pacer = c.pacer.serveAll (c.calls e) := by
  rw [react_eq]
  cases e with
  | frame seconds => exact c.pacer_frame seconds
  | key e =>
      rw [calls]
      rcases c.handle_key_cases e with ⟨k, hp, -, hh⟩ | ⟨h, hp, hk, hh⟩ | ⟨hp, hk, hh⟩
      · rw [hp, hh]
        rfl
      · rw [hp, hk, hh]
        exact c.pacer_pressHotkey h
      · rw [hp, hk, hh]
        cases e.escape <;> rfl
      all_goals nofun
  | resumed =>
      rcases c.resume_cases with ⟨_, _, h⟩ | ⟨_, _, -, h⟩
      · rw [handle, h]
        rfl
      · rw [handle, h]
        rfl
  | resized width height =>
      rcases c.resize_cases width height with ⟨_, h⟩ | ⟨_, -, h⟩
      · rw [handle, h]
        rfl
      · rw [handle, h]
        rfl
  | closeRequested => rfl
  | other => rfl

/-- The calls a console makes to its pacer at a happening. -/
def callsAt (c : Console D) : Happening D → List PacerCall
  | .event e => c.calls e
  | .devices _ | .disk _ => []

/-- The calls a console makes to its pacer at a list of happenings. -/
def allCalls : Console D → List (Happening D) → List PacerCall
  | _, [] => []
  | c, h :: hs => c.callsAt h ++ (c.undergo h).allCalls hs

theorem pacer_undergo (c : Console D) (h : Happening D) :
    (c.undergo h).pacer = c.pacer.serveAll (c.callsAt h) := by
  cases h with
  | event e => exact c.pacer_react e
  | devices broken => rfl
  | disk change => rfl

theorem pacer_undergoAll (c : Console D) (hs : List (Happening D)) :
    (c.undergoAll hs).pacer = c.pacer.serveAll (c.allCalls hs) := by
  induction hs generalizing c with
  | nil => rfl
  | cons h hs ih =>
      refine (ih (c.undergo h)).trans ?_
      rw [pacer_undergo, allCalls, Pacer.serveAll, Pacer.serveAll, Pacer.serveAll,
        List.foldl_append]

/-! ## Reachable consoles -/

/-- The pacer of a console is a fresh one that was given calls. -/
theorem Reachable.pacer (h : c.Reachable) :
    ∃ key rate calls, c.pacer = (Pacer.fresh key rate).serveAll calls := by
  obtain ⟨o, program, around, start, hs, hstart, rfl⟩ := h
  refine ⟨o.streamKey around.entropy, o.rate, .load program :: start.allCalls hs, ?_⟩
  have hpacer : start.pacer =
      (Pacer.fresh (o.streamKey around.entropy) o.rate).serve (.load program) := by
    rw [(start_eq_ok_iff.mp hstart).2.2, started]
  rw [pacer_undergoAll, hpacer, Pacer.serveAll, Pacer.serveAll, List.foldl_cons]

/-- A machine of a console is one that a pacer can come to have. -/
theorem Reachable.machine (h : c.Reachable) : c.machine.Reachable := by
  obtain ⟨key, rate, calls, hp⟩ := h.pacer
  exact ⟨key, rate, calls, (congrArg Pacer.machine hp).symm⟩

end Console

end ChipEight
