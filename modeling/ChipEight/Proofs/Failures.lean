import ChipEight.Proofs.FailedUpdates
import ChipEight.Proofs.Happenings

/-!
# What fails and what is noted

A console notes the failure of the last event that failed and goes on.  `Console.failures`
lists the failures of all events of a run, and what is noted is the last of the list
(`failure_undergoAll`).  So nothing is noted exactly if nothing failed, and what was noted
once can only be replaced.

Hotkeys are not among the events that fail, and one that has no effect leaves all but the
files as it was (`Console.Vain`): a state that is refused leaves the machine alone, and what
a write that fails does to the files is up to the file system.  A frame fails with its
machine exactly if a cycle of the update does (`failure_frame_iff`).
-/

namespace ChipEight

/-! ## Events that fail -/

/-- True for the events that close the window. -/
def Event.closes : Event → Bool
  | .closeRequested => true
  | .key e => e.escape
  | _ => false

def Happening.closes {D : Type} : Happening D → Bool
  | .event e => e.closes
  | _ => false

namespace Console

variable {D : Type} {c : Console D} {e : Event}

theorem note_paint (c : Console D) (seconds : Float32) :
    (c.paint seconds).2.failure = c.failure ∧ (c.paint seconds).2.exits = c.exits := by
  obtain ⟨_, _, _, _, h⟩ := c.paint_eq seconds
  rw [h]
  exact ⟨rfl, rfl⟩

theorem failure_render (c : Console D) :
    c.render.1 = none ∨ c.render.1 = some .render ∧ c.isBroken .render = true := by
  unfold render
  split
  · exact Or.inl rfl
  · split
    next hb => exact Or.inr ⟨rfl, hb⟩
    · exact Or.inl rfl

theorem broken_paint (c : Console D) (seconds : Float32) :
    (c.paint seconds).2.broken = c.broken := by
  obtain ⟨_, _, _, _, h⟩ := c.paint_eq seconds
  rw [h]

variable [FileSystem D]

/-- What fails at a happening.  Only events can fail. -/
def failureAt (c : Console D) : Happening D → Option Failure
  | .event e => (c.turn e).failure
  | .devices _ | .disk _ => none

/-- The failures at a list of happenings, from the first to the last. -/
def failures : Console D → List (Happening D) → List Failure
  | _, [] => []
  | c, h :: hs => (c.failureAt h).toList ++ (c.undergo h).failures hs

theorem note_pressHotkey (c : Console D) (h : Hotkey) :
    (c.pressHotkey h).console.failure = c.failure ∧
      (c.pressHotkey h).console.exits = c.exits := by
  cases h with
  | save =>
      obtain ⟨_, _, h⟩ := c.pressHotkey_save
      rw [h]
      exact ⟨rfl, rfl⟩
  | restore =>
      rcases c.pressHotkey_restore with ⟨_, h⟩ | ⟨_, h⟩ <;> rw [h] <;> exact ⟨rfl, rfl⟩
  | reload =>
      rcases c.pressHotkey_reload with ⟨_, h⟩ | h <;> rw [h] <;> exact ⟨rfl, rfl⟩
  | faster =>
      obtain ⟨_, h⟩ := c.pressHotkey_rate (Or.inl rfl)
      rw [h]
      exact ⟨rfl, rfl⟩
  | slower =>
      obtain ⟨_, h⟩ := c.pressHotkey_rate (Or.inr rfl)
      rw [h]
      exact ⟨rfl, rfl⟩

/-- What is noted is noted behind the event, and an event asks for the end by itself only
if it closes the window. -/
theorem note_handle (c : Console D) (e : Event) :
    (c.handle e).console.failure = c.failure ∧
      (c.handle e).console.exits = c.exits + if e.closes then 1 else 0 := by
  cases e with
  | frame seconds =>
      rcases c.frame_cases seconds with ⟨f, pacer, -, h⟩ | ⟨outcome, pacer, _, _, -, h, -⟩
      · rw [handle, h]
        exact ⟨rfl, rfl⟩
      · rw [handle, h]
        exact (c.updated pacer).note_paint seconds
  | key e =>
      cases he : e.escape with
      | true =>
          have h : c.handle (.key e) = { console := c.exit } := by rw [handle, if_pos he]
          rw [h, Event.closes, he]
          exact ⟨rfl, rfl⟩
      | false =>
          rw [Event.closes, he]
          rcases c.handle_key_cases e with ⟨k, -, -, h⟩ | ⟨k, -, -, h⟩ | ⟨-, -, h⟩
          · rw [h]
            exact ⟨rfl, rfl⟩
          · rw [h]
            exact c.note_pressHotkey k
          · rw [h, he]
            exact ⟨rfl, rfl⟩
  | resumed =>
      rcases c.resume_cases with ⟨_, _, h⟩ | ⟨_, _, -, h⟩
      · rw [handle, h]
        exact ⟨rfl, rfl⟩
      · rw [handle, h]
        exact ⟨rfl, rfl⟩
  | resized width height =>
      rcases c.resize_cases width height with ⟨_, h⟩ | ⟨_, -, h⟩
      · rw [handle, h]
        exact ⟨rfl, rfl⟩
      · rw [handle, h]
        exact ⟨rfl, rfl⟩
  | closeRequested => exact ⟨rfl, rfl⟩
  | other => exact ⟨rfl, rfl⟩

/-- An event that closes the window does not fail. -/
theorem failure_of_closes (h : e.closes = true) : (c.turn e).failure = none := by
  rw [failure_turn]
  cases e with
  | key e =>
      have he : e.escape = true := h
      rw [handle, if_pos he]
  | closeRequested => rfl
  | _ => cases h

/-- An event that fails is noted and asks for the end once. -/
theorem note_react (c : Console D) (e : Event) :
    (c.react e).failure = (c.turn e).failure.or c.failure ∧
      (c.react e).exits =
        c.exits + (if e.closes then 1 else 0) + (c.turn e).failure.toList.length := by
  obtain ⟨hfailure, hexits⟩ := c.note_handle e
  rw [failure_turn]
  cases h : (c.handle e).failure with
  | none =>
      rw [react, turn_of_handled h]
      exact ⟨hfailure, hexits⟩
  | some f =>
      rw [react, turn_of_failed h]
      exact ⟨rfl, congrArg (· + 1) hexits⟩

/-- An event does not fail and close the window as well, so one that fails asks for the end
just once. -/
theorem note_of_failed {f : Failure} (h : (c.turn e).failure = some f) :
    (c.react e).failure = some f ∧ (c.react e).exits = c.exits + 1 := by
  obtain ⟨hfailure, hexits⟩ := c.note_react e
  have hopen : e.closes = false := by
    rw [Bool.eq_false_iff]
    intro hcloses
    rw [failure_of_closes hcloses] at h
    cases h
  rw [hfailure, hexits, h, hopen]
  exact ⟨rfl, rfl⟩

/-- What is noted behind a run is the last failure of the run, or what was noted before. -/
theorem failure_undergoAll (c : Console D) (hs : List (Happening D)) :
    (c.undergoAll hs).failure = (c.failures hs).getLast?.or c.failure := by
  induction hs generalizing c with
  | nil => rfl
  | cons h hs ih =>
      have hone : (c.undergo h).failure = (c.failureAt h).or c.failure := by
        cases h with
        | event e => exact (c.note_react e).1
        | devices broken => rfl
        | disk change => rfl
      refine (ih (c.undergo h)).trans ?_
      rw [failures, List.getLast?_append, Option.or_assoc, hone]
      cases c.failureAt h <;> rfl

/-- The end is asked for once by each event that closes the window, and once by each that
fails. -/
theorem exits_undergoAll (c : Console D) (hs : List (Happening D)) :
    (c.undergoAll hs).exits =
      c.exits + hs.countP Happening.closes + (c.failures hs).length := by
  induction hs generalizing c with
  | nil => rfl
  | cons h hs ih =>
      have hone : (c.undergo h).exits =
          c.exits + (if h.closes then 1 else 0) + (c.failureAt h).toList.length := by
        cases h with
        | event e => exact (c.note_react e).2
        | devices broken => rfl
        | disk change => rfl
      refine (ih (c.undergo h)).trans ?_
      rw [failures, List.countP_cons, List.length_append, hone]
      omega

theorem mem_failures_iff {c : Console D} {hs : List (Happening D)} {f : Failure} :
    f ∈ c.failures hs ↔
      ∃ early e late, hs = early ++ .event e :: late ∧
        ((c.undergoAll early).turn e).failure = some f := by
  induction hs generalizing c with
  | nil => simp [failures]
  | cons h hs ih =>
      rw [failures, List.mem_append, ih]
      constructor
      · rintro (hf | ⟨early, e, late, rfl, hf⟩)
        · cases h with
          | event e => exact ⟨[], e, hs, rfl, Option.mem_toList.mp hf⟩
          | devices broken => cases hf
          | disk change => cases hf
        · exact ⟨h :: early, e, late, rfl, hf⟩
      · rintro ⟨early, e, late, heq, hf⟩
        cases early with
        | nil =>
            cases heq
            exact Or.inl (Option.mem_toList.mpr hf)
        | cons h' early =>
            cases heq
            exact Or.inr ⟨early, e, late, rfl, hf⟩

/-- There is a last failure exactly if some event failed. -/
theorem isSome_getLast?_failures {hs : List (Happening D)} :
    (c.failures hs).getLast?.isSome ↔
      ∃ early e late, hs = early ++ .event e :: late ∧
        ((c.undergoAll early).turn e).failure.isSome := by
  constructor
  · intro h
    obtain ⟨f, hf⟩ := Option.isSome_iff_exists.mp h
    obtain ⟨early, e, late, hsplit, he⟩ := mem_failures_iff.mp (List.mem_of_getLast? hf)
    exact ⟨early, e, late, hsplit, Option.isSome_of_eq_some he⟩
  · rintro ⟨early, e, late, hsplit, h⟩
    obtain ⟨f, hf⟩ := Option.isSome_iff_exists.mp h
    have hmem : f ∈ c.failures hs := mem_failures_iff.mpr ⟨early, e, late, hsplit, hf⟩
    exact List.getLast?_isSome.mpr (List.ne_nil_of_mem hmem)

/-! ## Keys without an effect -/

/-- The key events that can have no effect: a state cannot be restored because its file is
not read or its text is refused, a state cannot be saved because its file is not written,
or the key is for nothing. -/
inductive Vain (c : Console D) : Event → Prop where
  | unread {e : Event} {cause : FileFault} (he : e.hotkey? = some .restore)
      (hr : FileSystem.read c.disk c.statePath = .error cause) : c.Vain e
  | refused {e : Event} {text : String} {cause : Corruption} (he : e.hotkey? = some .restore)
      (hr : FileSystem.read c.disk c.statePath = .ok text)
      (hm : (Procedure.restore text).answer c.machine = .error cause) : c.Vain e
  | unwritten {e : Event} {cause : FileFault} (he : e.hotkey? = some .save)
      (hw : (FileSystem.write c.disk c.statePath c.machine.save).1 = .error cause) : c.Vain e
  | unused {e : KeyEvent} (he : e.escape = false) (hp : (Event.key e).padKey? = none)
      (hk : (Event.key e).hotkey? = none) : c.Vain (.key e)

/-- No hotkey fails, and none touches what is noted. -/
theorem turn_hotkey {h : Hotkey} (he : e.hotkey? = some h) :
    (c.turn e).failure = none ∧ (c.react e).failure = c.failure ∧ (c.react e).exits = c.exits := by
  rw [react, turn_of_hotkey he]
  exact ⟨c.failure_pressHotkey h, c.note_pressHotkey h⟩

/-- A vain key event does not fail, and changes files at most. -/
theorem Vain.turn_eq (h : c.Vain e) :
    (c.turn e).failure = none ∧ c.react e = { c with disk := (c.react e).disk } ∧
      (e.hotkey? ≠ some .save → c.react e = c) := by
  cases h with
  | @unread e cause he hr =>
      have hpress : c.pressHotkey .restore =
          { console := c, reports := [.hotkeyFailed (.read c.statePath cause)] } := by
        simp only [pressHotkey, hotkey, hr]
      rw [react, turn_of_hotkey he, hpress]
      exact ⟨rfl, rfl, fun _ => rfl⟩
  | @refused e text cause he hr hm =>
      have hpress : c.pressHotkey .restore =
          { console := c, reports := [.hotkeyFailed (.restore cause)] } := by
        simp only [pressHotkey, hotkey, hr, Procedure.run_restore_of_refused hm]
        rfl
      rw [react, turn_of_hotkey he, hpress]
      exact ⟨rfl, rfl, fun _ => rfl⟩
  | unwritten he _ =>
      obtain ⟨disk, reports, hpress⟩ := c.pressHotkey_save
      rw [react, turn_of_hotkey he, hpress]
      exact ⟨rfl, rfl, fun hsave => absurd he hsave⟩
  | @unused e he hp hk =>
      rcases c.handle_key_cases e with ⟨k, hp', -, -⟩ | ⟨k, -, hk', -⟩ | ⟨-, -, hh⟩
      · rw [hp] at hp'
        cases hp'
      · rw [hk] at hk'
        cases hk'
      · rw [he] at hh
        rw [react, turn_of_handled (by rw [hh]), hh]
        exact ⟨rfl, rfl, fun _ => rfl⟩

/-! ## Frames that fail -/

/-- A frame fails with its machine if the update does.  Behind an update that did not fail,
it fails if its picture cannot be shown. -/
theorem failure_frame_cases (c : Console D) (seconds : Float32) :
    (∃ f, (c.pacer.update seconds).1 = .error f ∧
      (c.turn (.frame seconds)).failure = some (.execution f)) ∨
    ∃ outcome, (c.pacer.update seconds).1 = .ok outcome ∧
      ((c.turn (.frame seconds)).failure = none ∨
        (c.turn (.frame seconds)).failure = some .render ∧ c.isBroken .render = true) := by
  rw [failure_turn, handle, frame]
  rcases hu : c.pacer.update seconds with ⟨f | outcome, pacer⟩
  · exact Or.inl ⟨f, rfl, rfl⟩
  · refine Or.inr ⟨outcome, rfl, ?_⟩
    have hbroken := (c.updated pacer).broken_paint seconds
    dsimp only
    rw [playTones_eq]
    rcases hp : (c.updated pacer).paint seconds with ⟨painted, d⟩
    rw [hp] at hbroken
    cases painted with
    | false => exact Or.inl rfl
    | true =>
        have hrender := d.failure_render
        dsimp only
        rcases hr : d.render with ⟨failure, d'⟩
        rw [hr] at hrender
        rcases hrender with hf | ⟨hf, hb⟩
        · cases hf
          exact Or.inl rfl
        · cases hf
          rw [isBroken, hbroken] at hb
          exact Or.inr ⟨rfl, hb⟩

theorem failure_frame_iff {seconds : Float32} {f : Fault} :
    (c.turn (.frame seconds)).failure = some (.execution f) ↔
      (c.pacer.update seconds).1 = .error f := by
  rcases c.failure_frame_cases seconds with ⟨g, hu, hf⟩ | ⟨outcome, hu, hf | ⟨hf, -⟩⟩
  · rw [hf, hu]
    exact ⟨fun h => by cases h; rfl, fun h => by cases h; rfl⟩
  · rw [hf, hu]
    exact ⟨nofun, nofun⟩
  · rw [hf, hu]
    exact ⟨nofun, nofun⟩

theorem failure_frame_eq_none {seconds : Float32} {outcome : Outcome}
    (hu : (c.pacer.update seconds).1 = .ok outcome) (hb : c.isBroken .render = false) :
    (c.turn (.frame seconds)).failure = none := by
  rcases c.failure_frame_cases seconds with ⟨f, hf, -⟩ | ⟨-, -, h | ⟨-, h⟩⟩
  · rw [hf] at hu
    cases hu
  · exact h
  · rw [hb] at h
    cases h

/-- A frame fails with its machine exactly if a cycle does, and this cycle is the last. -/
theorem machine_of_failed_frame {seconds : Float32} {f : Fault}
    (h : (c.turn (.frame seconds)).failure = some (.execution f)) :
    ∃ early before, c.pacer.machineCalls (.update seconds) = early ++ [.cycle, .tickTimers] ∧
      c.machine.Succeeds early ∧ before = (c.machine.serveAll early).2 ∧
      Procedure.cycle.run before = .error f before ∧
      (c.react (.frame seconds)).machine = before.tickTimers := by
  have hu := failure_frame_iff.mp h
  have hends := c.pacer.update_ends seconds
  rw [hu] at hends
  obtain ⟨early, before, hcalls, hearly, hbefore, hr, hafter⟩ := hends.of_error
  refine ⟨early, before, hcalls, hearly, hbefore, hr, ?_⟩
  have hpacer : (c.react (.frame seconds)).pacer = c.pacer.serve (.update seconds) := by
    rw [pacer_react, calls, frameCalls]
    rcases hp : c.pacer.update seconds with ⟨_, pacer⟩
    rw [hp] at hu
    cases hu
    rfl
  rw [machine, hpacer, Pacer.machine_serve]
  exact hafter

/-! ## Every run of a console -/

/-- Whatever happens to a console, it notes the last of the failures of its events and asks
for the end once for each of them, and what is noted stays noted.  A hotkey does not fail.  A
vain key leaves the console as it is, but for what a write that fails does to the files.  A
frame fails with its machine if one of its cycles does; this cycle is the last, and the timers
take one step behind it. -/
theorem failures_are_noted {o : Options} {program : List UInt8} {around : Surroundings D}
    {start : Console D} (hstart : Console.start o program around = .ok start)
    (hs : List (Happening D)) :
    let c := start.undergoAll hs
    (c.failure.isSome ↔
      ∃ early e late, hs = early ++ .event e :: late ∧
        ((start.undergoAll early).turn e).failure.isSome) ∧
    c.failure = (start.failures hs).getLast? ∧
    c.exits = hs.countP Happening.closes + (start.failures hs).length ∧
    (∀ e f, (c.turn e).failure = some f →
      (c.react e).failure = some f ∧ (c.react e).exits = c.exits + 1) ∧
    (∀ later, c.failure.isSome → (c.undergoAll later).failure.isSome) ∧
    (∀ e h, e.hotkey? = some h →
      (c.turn e).failure = none ∧ (c.react e).failure = c.failure ∧
        (c.react e).exits = c.exits) ∧
    (∀ e, c.Vain e →
      (c.turn e).failure = none ∧ c.react e = { c with disk := (c.react e).disk } ∧
        (e.hotkey? ≠ some .save → c.react e = c)) ∧
    ∀ seconds f, .error f ∈ c.machine.cycleResults (c.pacer.machineCalls (.update seconds)) →
      (c.turn (.frame seconds)).failure = some (.execution f) ∧
        ∃ early before, c.pacer.machineCalls (.update seconds) = early ++ [.cycle, .tickTimers] ∧
          c.machine.Succeeds early ∧ before = (c.machine.serveAll early).2 ∧
          Procedure.cycle.run before = .error f before ∧
          (c.react (.frame seconds)).machine = before.tickTimers := by
  intro c
  have hfirst : start.failure = none ∧ start.exits = 0 := by
    rw [(start_eq_ok_iff.mp hstart).2.2]
    exact ⟨rfl, rfl⟩
  have hnoted : c.failure = (start.failures hs).getLast? := by
    rw [failure_undergoAll, hfirst.1, Option.or_none]
  refine ⟨hnoted ▸ isSome_getLast?_failures, hnoted, ?_, fun e f h => note_of_failed h, ?_,
    fun e h he => turn_hotkey he, fun e he => he.turn_eq, ?_⟩
  · rw [exits_undergoAll, hfirst.2, Nat.zero_add]
  · intro later h
    rw [failure_undergoAll, Option.isSome_or, h, Bool.or_true]
  · intro seconds f h
    have hfails := failure_frame_iff.mpr ((c.pacer.update_ends seconds).mem_iff.mp h)
    exact ⟨hfails, machine_of_failed_frame hfails⟩

/-- No seed is asked for.  There is no surface at first, then there is, and a state is asked
for that was never saved.  The machine takes one cycle and returns without a call in the next.
The failure of the frame replaces that of the surface, and the timer that was set has counted
down once. -/
theorem failures_of_failing_program :
    let options : Options := ⟨"games/x.ch8", 12, none, none⟩
    let program := [0x60, 0x03, 0xF0, 0x18, 0x00, 0xEE]
    let restore : Event := .key ⟨some ⟨"F9"⟩, true, false, false⟩
    let around : Surroundings Shelf := ⟨[], Keystream.seedKey 1, Shelf.empty⟩
    let start := started options program around
    let hs : List (Happening Shelf) := [.devices [.surface], .event .resumed, .devices [],
      .event .resumed, .event restore, .event (.frame 1.0)]
    let c := start.undergoAll hs
    Console.start options program around = .ok start ∧
      start.failures hs = [.surface, .execution (.stackUnderflow 0x204)] ∧
      c.failure = some (.execution (.stackUnderflow 0x204)) ∧ c.exits = 2 ∧
      c.machine.sound = 2 := by
  intro options program restore around start hs c
  have hstart : Console.start options program around = .ok start :=
    start_eq_ok_iff.mpr ⟨List.not_mem_nil, by decide, rfl⟩
  have hrun : start.failures hs = [.surface, .execution (.stackUnderflow 0x204)] ∧
      hs.countP Happening.closes = 0 ∧ c.machine.sound = 2 := by decide +kernel
  obtain ⟨hfailures, hopen, hsound⟩ := hrun
  obtain ⟨-, hnoted, hexits, -⟩ := failures_are_noted hstart hs
  rw [hfailures] at hnoted hexits
  rw [hopen] at hexits
  exact ⟨hstart, hfailures, hnoted, hexits, hsound⟩

end Console

end ChipEight
