import ChipEight.Proofs.Happenings

/-!
# Saving and restoring by key

A machine that was saved with one hotkey comes back with another, whatever happened to
the console in between: frames that ran the machine or failed, keys, another program,
another rate, a window that was resized or a device that broke.  Only the state file must
be left alone meanwhile, by the console and by everything else (`Happening.SparesFile`).

A console writes its state file at one hotkey and nowhere else (`files_react`).  So what
was written is still there.  That it is read back is up to the file system, and the one
thing that is asked of it (`FileSystem.ReadsBack`).  It is the text of a machine of a
console, which every machine takes (`Procedure.run_restore_save`).
-/

namespace ChipEight

/-- What does not save the machine, and leaves the file at a path as it is. -/
def Happening.SparesFile {D : Type} [FileSystem D] (path : String) : Happening D → Prop
  | .event e => e.hotkey? ≠ some .save
  | .devices _ => True
  | .disk change => ∀ d, FileSystem.read (change d) path = FileSystem.read d path

/-- Events that do not save the machine spare every file. -/
theorem Happening.sparesFile_of_events {D : Type} [FileSystem D] {path : String}
    (es : List Event) (hes : ∀ e ∈ es, e.hotkey? ≠ some .save) :
    ∀ h ∈ es.map Happening.event, SparesFile (D := D) path h := by
  intro h hh
  obtain ⟨e, he, rfl⟩ := List.mem_map.mp hh
  exact hes e he

namespace Console

variable {D : Type} {c : Console D} {e : Event}

/-! ## The state file -/

/-- The files of a console, and where its state file is. -/
def files (c : Console D) : D × String := (c.disk, c.statePath)

theorem files_paint (c : Console D) (seconds : Float32) :
    (c.paint seconds).2.files = c.files := by
  obtain ⟨_, _, _, _, h⟩ := c.paint_eq seconds
  rw [h]
  rfl

theorem files_frame (c : Console D) (seconds : Float32) :
    (c.frame seconds).console.files = c.files := by
  rcases c.frame_cases seconds with ⟨f, pacer, -, h⟩ | ⟨outcome, pacer, window, surface, -, h, -⟩
  · rw [h]
    rfl
  · rw [h]
    exact (c.updated pacer).files_paint seconds

variable [FileSystem D]

theorem files_pressHotkey {h : Hotkey} (hh : h ≠ .save) :
    (c.pressHotkey h).console.files = c.files := by
  cases h with
  | save => exact absurd rfl hh
  | restore =>
      rcases c.pressHotkey_restore with ⟨_, h⟩ | ⟨_, h⟩
      · rw [h]
      · rw [h]
        rfl
  | reload =>
      rcases c.pressHotkey_reload with ⟨_, h⟩ | h
      · rw [h]
      · rw [h]
        rfl
  | faster =>
      obtain ⟨_, h⟩ := c.pressHotkey_rate (Or.inl rfl)
      rw [h]
      rfl
  | slower =>
      obtain ⟨_, h⟩ := c.pressHotkey_rate (Or.inr rfl)
      rw [h]
      rfl

/-- Only the hotkey that saves the machine writes a file. -/
theorem files_react (he : e.hotkey? ≠ some .save) : (c.react e).files = c.files := by
  rw [react_eq]
  cases e with
  | frame seconds => exact c.files_frame seconds
  | key e =>
      rcases c.handle_key_cases e with ⟨k, -, -, h⟩ | ⟨k, -, hk, h⟩ | ⟨-, -, h⟩
      · rw [h]
        rfl
      · rw [h]
        refine files_pressHotkey ?_
        rintro rfl
        exact he hk
      · rw [h]
        cases e.escape <;> rfl
  | resumed =>
      rcases c.resume_cases with ⟨_, _, h⟩ | ⟨_, _, -, h⟩ <;> rw [handle, h] <;> rfl
  | resized width height =>
      rcases c.resize_cases width height with ⟨_, h⟩ | ⟨_, -, h⟩ <;> rw [handle, h] <;> rfl
  | closeRequested => rfl
  | other => rfl

/-- What is read of the state file. -/
def savedText (c : Console D) : Except FileFault String := FileSystem.read c.disk c.statePath

/-- A file that was spared reads as before. -/
theorem savedText_undergoAll {hs : List (Happening D)} (hhs : ∀ h ∈ hs, h.SparesFile c.statePath) :
    (c.undergoAll hs).savedText = c.savedText ∧
      (c.undergoAll hs).statePath = c.statePath := by
  induction hs generalizing c with
  | nil => exact ⟨rfl, rfl⟩
  | cons h hs ih =>
      obtain ⟨hh, hhs⟩ := List.forall_mem_cons.mp hhs
      have hone : (c.undergo h).savedText = c.savedText ∧
          (c.undergo h).statePath = c.statePath := by
        cases h with
        | event e =>
            obtain ⟨hdisk, hpath⟩ := Prod.mk.inj (files_react (c := c) hh)
            exact ⟨by rw [savedText, undergo, hdisk, hpath, savedText], hpath⟩
        | devices broken => exact ⟨rfl, rfl⟩
        | disk change => exact ⟨hh c.disk, rfl⟩
      obtain ⟨htext, hpath⟩ := ih (c := c.undergo h) (by rw [hone.2]; exact hhs)
      exact ⟨htext.trans hone.1, hpath.trans hone.2⟩

/-! ## The two hotkeys -/

/-- A machine that was saved is in the state file, if what is written is read back. -/
theorem savedText_of_saved (hback : FileSystem.ReadsBack D c.statePath)
    (he : e.hotkey? = some .save) (hsaved : (c.turn e).reports = [.stateSaved c.statePath]) :
    (c.react e).savedText = .ok c.machine.save ∧ (c.react e).statePath = c.statePath := by
  rw [react]
  rw [turn_of_hotkey he, pressHotkey, hotkey] at hsaved ⊢
  rcases hw : FileSystem.write c.disk c.statePath c.machine.save with ⟨cause | _, disk⟩
  · rw [hw] at hsaved
    cases hsaved
  · exact ⟨hback c.disk disk c.machine.save hw, rfl⟩

/-- A coherent machine that was saved is restored as long as the state file was spared. -/
theorem turn_restore_saved (hc : c.machine.Coherent)
    (hback : FileSystem.ReadsBack D c.statePath) {save restore : Event}
    (hsave : save.hotkey? = some .save)
    (hsaved : (c.turn save).reports = [.stateSaved c.statePath])
    {hs : List (Happening D)} (hhs : ∀ h ∈ hs, h.SparesFile c.statePath)
    (hrestore : restore.hotkey? = some .restore) :
    let before := (c.react save).undergoAll hs
    before.turn restore =
      { console := before.setMachine { c.machine with noise := before.machine.noise, tones := 0 }
        failure := none
        reports := [.stateLoaded c.statePath] } := by
  intro before
  obtain ⟨htext, hpath⟩ := savedText_of_saved hback hsave hsaved
  obtain ⟨hspared, hplace⟩ := savedText_undergoAll (c := c.react save) (by rw [hpath]; exact hhs)
  have hread : FileSystem.read before.disk before.statePath = .ok c.machine.save :=
    hspared.trans htext
  have hrun := Procedure.run_restore_save hc before.machine
  rw [turn_of_hotkey hrestore, pressHotkey, hotkey, hread]
  dsimp only
  rw [hrun, hplace, hpath]

theorem react_restore_saved (hc : c.machine.Coherent)
    (hback : FileSystem.ReadsBack D c.statePath) {save restore : Event}
    (hsave : save.hotkey? = some .save)
    (hsaved : (c.turn save).reports = [.stateSaved c.statePath])
    {hs : List (Happening D)} (hhs : ∀ h ∈ hs, h.SparesFile c.statePath)
    (hrestore : restore.hotkey? = some .restore) :
    ((c.react save).undergoAll hs).react restore =
      ((c.react save).undergoAll hs).setMachine
        { c.machine with
          noise := ((c.react save).undergoAll hs).machine.noise
          tones := 0 } :=
  congrArg Turn.console (turn_restore_saved hc hback hsave hsaved hhs hrestore)

/-- A saved machine comes back, whatever happened to the console meanwhile, as long as the
state file was spared, in every file system that reads back what was written there.  The
machine takes the next random byte from where the one before it would have, and no tone is
asked for.  All else about the console is as it was before. -/
theorem saved_machine_comes_back (hc : c.Reachable)
    (hback : FileSystem.ReadsBack D c.statePath) {save restore : Event}
    (hsave : save.hotkey? = some .save)
    (hsaved : (c.turn save).reports = [.stateSaved c.statePath])
    {hs : List (Happening D)} (hhs : ∀ h ∈ hs, h.SparesFile c.statePath)
    (hrestore : restore.hotkey? = some .restore) :
    let before := (c.react save).undergoAll hs
    before.turn restore =
      { console := before.setMachine { c.machine with noise := before.machine.noise, tones := 0 }
        failure := none
        reports := [.stateLoaded c.statePath] } :=
  turn_restore_saved hc.machine.coherent hback hsave hsaved hhs hrestore

/-- A machine that waits for a key is saved.  With the key its program goes on, takes a
random byte and fails at a return without a call, and another file is written.  Then the
machine is back where it waited, behind the random byte, and the failure stays noted. -/
theorem waiting_machine_comes_back :
    let options : Options := ⟨"games/x.ch8", 12, none, none⟩
    let program := [0xF0, 0x0A, 0xC1, 0xFF, 0x00, 0xEE]
    let around : Surroundings Shelf := ⟨[], Keystream.seedKey 1, Shelf.empty⟩
    let save : Event := .key ⟨some ⟨"F5"⟩, true, false, false⟩
    let key : Event := .key ⟨some ⟨"KeyX"⟩, true, false, false⟩
    let restore : Event := .key ⟨some ⟨"F9"⟩, true, false, false⟩
    let writeNotes (d : Shelf) : Shelf := (FileSystem.write d "games/notes" "").2
    let c := (started options program around).undergoAll [.event .resumed, .event (.frame 1.0)]
    let before := (c.react save).undergoAll
      [.event key, .devices [.render], .disk writeNotes, .event (.frame 1.0)]
    c.Reachable ∧ c.machine.isAwaitingKey = true ∧ before.machine.isAwaitingKey = false ∧
      before.machine.noise.position = 1 ∧
      before.failure = some (.execution (.stackUnderflow 0x204)) ∧
      before.turn restore =
        { console :=
            before.setMachine { c.machine with noise := before.machine.noise, tones := 0 }
          failure := none
          reports := [.stateLoaded "games/x.state.json"] } := by
  intro options program around save key restore writeNotes c before
  have hstart : Console.start options program around = .ok (started options program around) :=
    start_eq_ok_iff.mpr ⟨List.not_mem_nil, by decide, rfl⟩
  have hc : c.Reachable := ⟨options, program, around, _, _, hstart, rfl⟩
  have hrun : (c.turn save).reports = [.stateSaved c.statePath] ∧
      c.statePath = "games/x.state.json" ∧ c.machine.isAwaitingKey = true ∧
      before.machine.isAwaitingKey = false ∧ before.machine.noise.position = 1 ∧
      before.failure = some (.execution (.stackUnderflow 0x204)) := by decide +kernel
  obtain ⟨hsaved, hpath, hwait, hgone, hposition, hfailure⟩ := hrun
  have hnotes : ∀ d, FileSystem.read (writeNotes d) "games/x.state.json" =
      FileSystem.read d "games/x.state.json" := by
    intro d
    have hother : ("games/x.state.json" == "games/notes") = false := by decide
    simp only [writeNotes, FileSystem.write, FileSystem.read, List.lookup_cons, hother]
  have hspared : ∀ h ∈ [.event key, .devices [.render], .disk writeNotes, .event (.frame 1.0)],
      Happening.SparesFile c.statePath h := by
    have hkey : key.hotkey? ≠ some .save := by decide +kernel
    have hframe : (Event.frame 1.0).hotkey? ≠ some .save := by decide
    rw [hpath]
    intro h hh
    rcases List.mem_cons.mp hh with rfl | hh
    · exact hkey
    rcases List.mem_cons.mp hh with rfl | hh
    · trivial
    rcases List.mem_cons.mp hh with rfl | hh
    · exact hnotes
    rw [List.mem_singleton.mp hh]
    exact hframe
  refine ⟨hc, hwait, hgone, hposition, hfailure, ?_⟩
  rw [← hpath]
  exact saved_machine_comes_back hc (Shelf.readsBack _) (by decide +kernel) hsaved hspared
    (by decide +kernel)

end Console

end ChipEight
