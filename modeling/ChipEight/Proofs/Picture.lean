import ChipEight.Proofs.CatchingUp
import ChipEight.Proofs.Redraw
import ChipEight.Proofs.StateKeys

/-!
# The picture on the surface

The picture is up to date when every pixel that is on has full brightness and is opaque
in the frame of the surface (`Console.ShowsScreen`).  A frame is painted only if
something says that it has to be: the redraw flag of the machine, a pixel that fades, or
the surface, which lost its frame (`Console.needsPaint`).

A console `Tracks` its screen when something says so or the picture is up to date
already.  Every event keeps it that way but two, which can put another picture behind
without a word: a state that is restored brings its own redraw flag, and a second surface
is empty.  When nothing has to be painted then, the event is overlooked
(`Console.Overlooks`).  In a run without such an event, every frame that does not fail
leaves the picture up to date.
-/

namespace ChipEight

/-! ## Brightness -/

namespace Glow

theorem get_decay (glow : Glow) (screen : Screen) (seconds : Float32) (p : Fin screenSize) :
    (glow.decay screen seconds).get p = fade (screen.get p) (glow.get p) seconds := by
  simp only [decay, Bank.get, Vector.getElem_zipWith]

theorem get_frame (glow : Glow) (p : Fin screenSize) :
    Bank.get glow.frame p = colour (glow.get p) := by
  simp only [frame, Bank.get, Vector.getElem_map]

/-- A pixel that is on is at full brightness and opaque. -/
theorem shown_of_on (glow : Glow) {screen : Screen} {p : Fin screenSize}
    (hp : Bank.get screen p = true) (seconds : Float32) :
    (glow.decay screen seconds).get p = 1.0 ∧
      (Bank.get (glow.decay screen seconds).frame p).alpha = 0xFF := by
  have hfull : (glow.decay screen seconds).get p = 1.0 := by
    rw [get_decay, hp]
    rfl
  refine ⟨hfull, ?_⟩
  rw [get_frame, hfull]
  exact colour_full

/-- No pixel fades. -/
def Settled (glow : Glow) : Prop := ∀ p : Fin screenSize, glow.get p = 0.0 ∨ glow.get p = 1.0

theorem settled_dark : dark.Settled := by
  intro p
  rw [dark, Bank.get, Vector.getElem_replicate]
  exact Or.inl rfl

/-- A second is enough to fade away. -/
theorem Settled.decay {glow : Glow} (h : glow.Settled) (screen : Screen) :
    (glow.decay screen 1.0).Settled := by
  intro p
  rw [get_decay]
  cases Bank.get screen p with
  | true => exact Or.inr rfl
  | false =>
      rcases h p with hp | hp
      · rw [hp]
        exact Or.inl (by decide +kernel)
      · rw [hp]
        exact Or.inl (by decide +kernel)

theorem Settled.isFading {glow : Glow} (h : glow.Settled) : glow.isFading = false := by
  rw [Glow.isFading, List.any_eq_false]
  intro b hb
  obtain ⟨k, hk, rfl⟩ := List.mem_iff_getElem.mp hb
  rw [Vector.getElem_toList]
  have hk' : k < screenSize := by simpa using hk
  rcases h ⟨k, hk'⟩ with hp | hp
  · change glow[k] = 0.0 at hp
    rw [hp]
    decide +kernel
  · change glow[k] = 1.0 at hp
    rw [hp]
    decide +kernel

end Glow

namespace Console

variable {D : Type} {c d : Console D} {e : Event}

/-! ## The picture -/

/-- What is seen of a console: the brightness of the pixels and the frame of its surface. -/
def seen (c : Console D) : Glow × Option Frame := (c.glow, c.surface.map Surface.frame)

/-- Every pixel that is on has full brightness and is opaque on the surface. -/
def ShowsScreen (c : Console D) : Prop :=
  ∀ p, Bank.get c.machine.screen p = true →
    c.glow.get p = 1.0 ∧ ∀ s, c.surface = some s → (Bank.get s.frame p).alpha = 0xFF

theorem ShowsScreen.of_eq (h : c.ShowsScreen) (hseen : d.seen = c.seen)
    (hscreen : d.machine.screen = c.machine.screen) : d.ShowsScreen := by
  obtain ⟨hglow, hframe⟩ := Prod.mk.inj hseen
  intro p hp
  rw [hscreen] at hp
  obtain ⟨hfull, hopaque⟩ := h p hp
  rw [hglow]
  refine ⟨hfull, ?_⟩
  intro s hs
  rw [hs] at hframe
  obtain ⟨t, ht, hst⟩ := Option.map_eq_some_iff.mp hframe.symm
  rw [← hst]
  exact hopaque t ht

theorem showsScreen_of_blank (h : c.machine.screen = Screen.blank) : c.ShowsScreen := by
  intro p hp
  rw [h, Screen.blank, Bank.get, Vector.getElem_replicate] at hp
  cases hp

theorem needsPaint_eq_false_iff :
    c.needsPaint = false ↔
      c.machine.redraw = false ∧ c.glow.isFading = false ∧ c.dirty = false := by
  rw [needsPaint, Bool.or_eq_false_iff, Bool.or_eq_false_iff, and_assoc]

/-- The picture is left as it was, and the machine has drawn only if its flag says so. -/
structure Left (c d : Console D) : Prop where
  seen_eq : d.seen = c.seen
  dirty_eq : d.dirty = c.dirty
  screen_eq : d.machine.redraw = false →
    c.machine.redraw = false ∧ d.machine.screen = c.machine.screen

theorem Left.of_machine (hseen : d.seen = c.seen) (hdirty : d.dirty = c.dirty)
    (hscreen : d.machine.screen = c.machine.screen)
    (hredraw : d.machine.redraw = c.machine.redraw) : c.Left d :=
  ⟨hseen, hdirty, fun h => ⟨hredraw.symm.trans h, hscreen⟩⟩

/-! ## What is kept -/

/-- Nothing is missing in the picture, unless the next frame is painted. -/
def Tracks (c : Console D) : Prop := c.needsPaint = false → c.ShowsScreen

/-- Without a surface there is something to be painted. -/
def AwaitsSurface (c : Console D) : Prop := c.surface = none → c.dirty = true

theorem surface_of_seen (hseen : d.seen = c.seen) (hs : d.surface = none) : c.surface = none := by
  have hframe := (Prod.mk.inj hseen).2
  rw [hs] at hframe
  exact Option.map_eq_none_iff.mp hframe.symm

theorem Tracks.of_left (h : c.Tracks) (hl : c.Left d) : d.Tracks := by
  intro hn
  obtain ⟨hredraw, hfading, hclean⟩ := needsPaint_eq_false_iff.mp hn
  obtain ⟨hredraw', hscreen⟩ := hl.screen_eq hredraw
  rw [(Prod.mk.inj hl.seen_eq).1] at hfading
  rw [hl.dirty_eq] at hclean
  have hshows := h (needsPaint_eq_false_iff.mpr ⟨hredraw', hfading, hclean⟩)
  exact hshows.of_eq hl.seen_eq hscreen

theorem Tracks.of_needsPaint (h : c.needsPaint = true) : c.Tracks := by
  intro hn
  rw [h] at hn
  cases hn

/-! ## Frames -/

/-- The picture was painted anew, some seconds after the one before. -/
structure Painted (c d : Console D) (seconds : Float32) : Prop where
  glow_eq : d.glow = c.glow.decay d.machine.screen seconds
  surface_eq : ∃ s, d.surface = some s ∧ s.frame = d.glow.frame

theorem Painted.showsScreen {seconds : Float32} (h : c.Painted d seconds) : d.ShowsScreen := by
  obtain ⟨s, hs, hframe⟩ := h.surface_eq
  intro p hp
  obtain ⟨hfull, hopaque⟩ := Glow.shown_of_on c.glow hp seconds
  rw [← h.glow_eq] at hfull hopaque
  refine ⟨hfull, ?_⟩
  intro t ht
  rw [hs] at ht
  cases ht
  rw [hframe]
  exact hopaque

variable [FileSystem D]

/-- A frame paints the picture or leaves it, and if it does not fail it only leaves what
need not or cannot be painted. -/
theorem frame_picture (c : Console D) (seconds : Float32) :
    let d := c.react (.frame seconds)
    c.Painted d seconds ∨
      c.Left d ∧
        ((c.turn (.frame seconds)).failure = none → d.needsPaint = false ∨ d.surface = none) := by
  intro d
  have hd : d = { (c.frame seconds).console with failure := d.failure, exits := d.exits } :=
    c.react_eq (.frame seconds)
  rw [hd, failure_turn]
  rcases c.frame_cases seconds with ⟨f, pacer, hu, h⟩ | ⟨outcome, pacer, window, surface, hu, h, hs⟩
  · have hupdate := c.pacer.screen_update seconds
    rw [hu] at hupdate
    rw [handle, h]
    refine Or.inr ⟨⟨rfl, rfl, hupdate⟩, ?_⟩
    intro hok
    cases hok
  · have hupdate := c.pacer.screen_update seconds
    rw [hu] at hupdate
    rw [h]
    rcases (c.updated pacer).paint_cases seconds with ⟨hno, hp⟩ | ⟨s, -, hsome, hp⟩
    · rw [hp] at hs ⊢
      refine Or.inr ⟨⟨Prod.ext rfl hs, rfl, hupdate⟩, ?_⟩
      intro _
      rcases hno with hno | hno
      · exact Or.inl hno
      · rw [hno] at hs
        exact Or.inr (Option.map_eq_none_iff.mp hs)
    · rw [hp] at hs ⊢
      obtain ⟨t, ht, hframe⟩ := Option.map_eq_some_iff.mp hs
      exact Or.inl ⟨rfl, t, ht, hframe⟩

/-- The machine drew and its flag is cleared: the frame was painted. -/
theorem painted_of_drawn {seconds : Float32} {p : Fin screenSize}
    (hflag : (c.react (.frame seconds)).machine.redraw = false)
    (hp : Bank.get (c.react (.frame seconds)).machine.screen p ≠ Bank.get c.machine.screen p) :
    c.Painted (c.react (.frame seconds)) seconds := by
  rcases c.frame_picture seconds with h | ⟨hl, -⟩
  · exact h
  · exact absurd (congrArg (Bank.get · p) (hl.screen_eq hflag).2) hp

/-- When no time is left to run and nothing has to be painted, a frame changes nothing that
is seen. -/
theorem turn_frame_of_idle {seconds : Float32}
    (hu : c.pacer.update seconds = (.ok .proceed, c.pacer)) (hn : c.needsPaint = false) :
    c.turn (.frame seconds) = { console := (c.updated c.pacer).requestRedraw } := by
  have hframe : c.frame seconds = { console := (c.updated c.pacer).requestRedraw } := by
    rcases (c.updated c.pacer).paint_cases seconds with ⟨-, hp⟩ | ⟨s, hpaint, -, -⟩
    · simp only [frame, hu, playTones_eq, hp]
    · have : c.needsPaint = true := hpaint
      rw [hn] at this
      cases this
  rw [turn_of_handled, handle, hframe]
  rw [handle, hframe]

/-- A machine put in without its redraw flag is not painted. -/
theorem turn_frame_of_unflagged (c : Console D) {m : Machine} (hflag : m.redraw = false)
    (hfading : c.glow.isFading = false) (hclean : c.dirty = false)
    (hbacklog : c.pacer.backlog = 0.0) :
    ((c.setMachine m).turn (.frame 0.0)).failure = none ∧
      ((c.setMachine m).react (.frame 0.0)).machine.screen = m.screen ∧
      ((c.setMachine m).react (.frame 0.0)).seen = c.seen := by
  have hn : (c.setMachine m).needsPaint = false :=
    needsPaint_eq_false_iff.mpr ⟨hflag, hfading, hclean⟩
  have hu : (c.setMachine m).pacer.update 0.0 = (.ok .proceed, (c.setMachine m).pacer) :=
    Pacer.update_zero hbacklog
  rw [Console.react, turn_frame_of_idle hu hn]
  exact ⟨rfl, rfl, rfl⟩

/-! ## Events -/

/-- What an event can do to the picture and to the screen behind it. -/
inductive PictureStep (c : Console D) (e : Event) (d : Console D) : Prop
  | left (h : c.Left d)
  | painted (seconds : Float32) (he : e = .frame seconds) (h : c.Painted d seconds)
  /-- The program was loaded again. -/
  | cleared (he : e.hotkey? = some .reload) (hseen : d.seen = c.seen) (hdirty : d.dirty = c.dirty)
      (hscreen : d.machine.screen = Screen.blank)
  | restored (he : e.hotkey? = some .restore) (hseen : d.seen = c.seen) (hdirty : d.dirty = c.dirty)
  | resized (width height : Nat) (he : e = .resized width height)
      (hsurface : d.surface.isSome = true) (hdirty : d.dirty = true)
  /-- There is a surface with nothing on it. -/
  | resumed (he : e = .resumed) (hsurface : d.surface.isSome = true) (hdirty : d.dirty = c.dirty)

theorem pictureStep_of_hotkey {h : Hotkey} (he : e.hotkey? = some h) :
    c.PictureStep e (c.react e) := by
  rw [Console.react, turn_of_hotkey he]
  cases h with
  | save =>
      obtain ⟨disk, reports, hs⟩ := c.pressHotkey_save
      rw [hs]
      exact .left (.of_machine rfl rfl rfl rfl)
  | restore =>
      rcases c.pressHotkey_restore with ⟨cause, hr⟩ | ⟨m, hr⟩
      · rw [hr]
        exact .left (.of_machine rfl rfl rfl rfl)
      · rw [hr]
        exact .restored he rfl rfl
  | reload =>
      rcases c.pressHotkey_reload with ⟨cause, hr⟩ | hr
      · rw [hr]
        exact .left (.of_machine rfl rfl rfl rfl)
      · rw [hr]
        refine .cleared he rfl rfl ?_
        rw [Console.machine, Machine.store, Machine.reset, Machine.boot]
  | faster =>
      obtain ⟨delta, hr⟩ := c.pressHotkey_rate (Or.inl rfl)
      rw [hr]
      exact .left (.of_machine rfl rfl rfl rfl)
  | slower =>
      obtain ⟨delta, hr⟩ := c.pressHotkey_rate (Or.inr rfl)
      rw [hr]
      exact .left (.of_machine rfl rfl rfl rfl)

theorem pictureStep_react (c : Console D) (e : Event) : c.PictureStep e (c.react e) := by
  cases e with
  | frame seconds =>
      rcases c.frame_picture seconds with hp | ⟨hl, -⟩
      · exact .painted seconds rfl hp
      · exact .left hl
  | key e =>
      rcases c.handle_key_cases e with ⟨k, -, -, h⟩ | ⟨k, -, hk, -⟩ | ⟨-, -, h⟩
      · rw [react_eq, h]
        exact .left (.of_machine rfl rfl rfl rfl)
      · exact pictureStep_of_hotkey hk
      · rw [react_eq, h]
        cases e.escape <;> exact .left (.of_machine rfl rfl rfl rfl)
  | resumed =>
      rcases c.resume_cases with ⟨window, f, h⟩ | ⟨window, s, -, h⟩
      · rw [react_eq, handle, h]
        exact .left (.of_machine rfl rfl rfl rfl)
      · rw [react_eq, handle, h]
        exact .resumed rfl rfl rfl
  | resized width height =>
      rcases c.resize_cases width height with ⟨failure, h⟩ | ⟨s, -, h⟩
      · rw [react_eq, handle, h]
        exact .left (.of_machine rfl rfl rfl rfl)
      · rw [react_eq, handle, h]
        exact .resized width height rfl rfl rfl
  | closeRequested => exact .left (.of_machine rfl rfl rfl rfl)
  | other => exact .left (.of_machine rfl rfl rfl rfl)

/-- No key touches what is seen. -/
theorem seen_react_key (c : Console D) (e : KeyEvent) : (c.react (.key e)).seen = c.seen := by
  cases c.pictureStep_react (.key e) with
  | left hl => exact hl.seen_eq
  | painted seconds he hp => cases he
  | cleared he hseen hdirty hscreen => exact hseen
  | restored he hseen hdirty => exact hseen
  | resized width height he hsurface hdirty => cases he
  | resumed he hsurface hdirty => cases he

/-! ## What events keep -/

/-- The picture is not up to date behind an event, and nothing says so.  The event restored
a state, or replaced a surface. -/
def Overlooks (c : Console D) : Happening D → Prop
  | .event e =>
      (e.hotkey? = some .restore ∨ e = .resumed ∧ c.surface.isSome = true) ∧
        (c.react e).needsPaint = false ∧ ¬ (c.react e).ShowsScreen
  | .devices _ | .disk _ => False

theorem AwaitsSurface.react (h : c.AwaitsSurface) (e : Event) : (c.react e).AwaitsSurface := by
  intro hs
  cases c.pictureStep_react e with
  | left hl => exact hl.dirty_eq.trans (h (surface_of_seen hl.seen_eq hs))
  | painted seconds he hp =>
      obtain ⟨s, hsome, -⟩ := hp.surface_eq
      rw [hs] at hsome
      cases hsome
  | cleared he hseen hdirty hscreen => exact hdirty.trans (h (surface_of_seen hseen hs))
  | restored he hseen hdirty => exact hdirty.trans (h (surface_of_seen hseen hs))
  | resized width height he hsurface hdirty => exact hdirty
  | resumed he hsurface hdirty =>
      rw [hs] at hsurface
      cases hsurface

/-- Every event that is not overlooked keeps track of the screen. -/
theorem Tracks.react (h : c.Tracks) (ha : c.AwaitsSurface) (he : ¬ c.Overlooks (.event e)) :
    (c.react e).Tracks := by
  intro hn
  have hclean := (needsPaint_eq_false_iff.mp hn).2.2
  cases c.pictureStep_react e with
  | left hl => exact h.of_left hl hn
  | painted seconds hframe hp => exact hp.showsScreen
  | cleared hreload hseen hdirty hscreen => exact showsScreen_of_blank hscreen
  | restored hrestore hseen hdirty =>
      by_contra hstale
      exact he ⟨Or.inl hrestore, hn, hstale⟩
  | resized width height hresized hsurface hdirty =>
      rw [hdirty] at hclean
      cases hclean
  | resumed hresumed hsurface hdirty =>
      -- the first surface is painted, and only a later one can be overlooked
      cases hs : c.surface with
      | none =>
          rw [hdirty, ha hs] at hclean
          cases hclean
      | some s =>
          by_contra hstale
          exact he ⟨Or.inr ⟨hresumed, by rw [hs]; rfl⟩, hn, hstale⟩

/-! ## Runs -/

/-- None of the happenings is overlooked. -/
def OverlooksNone : Console D → List (Happening D) → Prop
  | _, [] => True
  | c, h :: hs => ¬ c.Overlooks h ∧ (c.undergo h).OverlooksNone hs

theorem AwaitsSurface.undergoAll (h : c.AwaitsSurface) (hs : List (Happening D)) :
    (c.undergoAll hs).AwaitsSurface := by
  induction hs generalizing c with
  | nil => exact h
  | cons x xs ih =>
      cases x with
      | event e => exact ih (h.react e)
      | devices broken => exact ih (c := { c with broken }) h
      | disk change => exact ih (c := { c with disk := _ }) h

theorem Tracks.undergoAll (h : c.Tracks) (ha : c.AwaitsSurface) {hs : List (Happening D)}
    (hhs : c.OverlooksNone hs) : (c.undergoAll hs).Tracks := by
  induction hs generalizing c with
  | nil => exact h
  | cons x xs ih =>
      obtain ⟨hx, hxs⟩ := hhs
      cases x with
      | event e => exact ih (h.react ha hx) (ha.react e) hxs
      | devices broken => exact ih (c := { c with broken }) h ha hxs
      | disk change => exact ih (c := { c with disk := _ }) h ha hxs

/-- A frame that does not fail leaves the picture up to date, if there is a surface. -/
theorem Tracks.frame_shows (h : c.Tracks) {seconds : Float32}
    (hok : (c.turn (.frame seconds)).failure = none)
    (hs : (c.react (.frame seconds)).surface.isSome = true) :
    (c.react (.frame seconds)).ShowsScreen := by
  rcases c.frame_picture seconds with hp | ⟨hl, hleft⟩
  · exact hp.showsScreen
  · rcases hleft hok with hn | hnone
    · exact h.of_left hl hn
    · rw [hnone] at hs
      cases hs

/-- From the start, or from any moment at which something had to be painted, let nothing
be overlooked.  Then every frame that does not fail leaves the picture up to date, if there
is a surface by then. -/
theorem frame_shows_screen {o : Options} {program : List UInt8} {around : Surroundings D}
    {start : Console D} (hstart : Console.start o program around = .ok start)
    {before after : List (Happening D)}
    (hbefore : before = [] ∨ (start.undergoAll before).needsPaint = true)
    (hafter : (start.undergoAll before).OverlooksNone after) (seconds : Float32) :
    let c := start.undergoAll (before ++ after)
    (c.turn (.frame seconds)).failure = none →
      (c.react (.frame seconds)).surface.isSome = true →
        (c.react (.frame seconds)).ShowsScreen := by
  intro c hok hs
  obtain ⟨-, -, rfl⟩ := start_eq_ok_iff.mp hstart
  have hawaits : (started o program around).AwaitsSurface := fun _ => rfl
  have hpaint : ((started o program around).undergoAll before).needsPaint = true := by
    rcases hbefore with rfl | h
    · exact Bool.or_true _
    · exact h
  have htracks : c.Tracks := by
    simp only [c, undergoAll_append]
    exact (Tracks.of_needsPaint hpaint).undergoAll (hawaits.undergoAll before) hafter
  exact htracks.frame_shows hok hs

/-- A program draws before there is a surface, and its machine is saved.  Painted, cleared
and restored, it brings its redraw flag along, and so it is seen again. -/
theorem picture_of_flagged_state :
    let options : Options := ⟨"games/x.ch8", 12, none, none⟩
    let program := [0xA0, 0x50, 0xD0, 0x05, 0xF0, 0x0A, 0x00, 0xE0, 0xF0, 0x0A]
    let around : Surroundings Shelf := ⟨[], Keystream.seedKey 1, Shelf.empty⟩
    let save : Event := .key ⟨some ⟨"F5"⟩, true, false, false⟩
    let key (down : Bool) : Event := .key ⟨some ⟨"KeyX"⟩, down, false, false⟩
    let restore : Event := .key ⟨some ⟨"F9"⟩, true, false, false⟩
    let start := started options program around
    let before := [.event (.frame 1.0), .event save, .event .resumed, .event (.frame 1.0),
      .event (key true), .event (.frame 1.0), .event restore]
    let after := [.event (key false)]
    let c := start.undergoAll (before ++ after)
    Console.start options program around = .ok start ∧
      (start.undergoAll before).needsPaint = true ∧
      (start.undergoAll before).OverlooksNone after ∧
      (c.turn (.frame 0.0)).failure = none ∧ (c.react (.frame 0.0)).surface.isSome = true ∧
      Bank.get (c.react (.frame 0.0)).machine.screen (pixel 0 0) = true ∧
      (c.react (.frame 0.0)).ShowsScreen := by
  intro options program around save key restore start before after c
  have hstart : Console.start options program around = .ok start :=
    start_eq_ok_iff.mpr ⟨List.not_mem_nil, by decide, rfl⟩
  let saved := start.undergoAll [.event (.frame 1.0)]
  let cleared := (saved.react save).undergoAll
    [.event .resumed, .event (.frame 1.0), .event (key true), .event (.frame 1.0)]
  have hsaved : saved.Reachable := ⟨options, program, around, _, _, hstart, rfl⟩
  let restored := cleared.setMachine
    { saved.machine with noise := cleared.machine.noise, tones := 0 }
  have hrun : (saved.turn save).reports = [.stateSaved saved.statePath] ∧
      restored.needsPaint = true ∧
      ((restored.undergoAll after).turn (.frame 0.0)).failure = none ∧
      ((restored.undergoAll after).react (.frame 0.0)).surface.isSome = true ∧
      Bank.get ((restored.undergoAll after).react (.frame 0.0)).machine.screen (pixel 0 0) = true :=
    by decide +kernel
  obtain ⟨hreport, hpaint, hok, hsurface, hon⟩ := hrun
  have hsplit : ∀ s : Console Shelf, s.undergoAll before =
      (((s.undergoAll [.event (.frame 1.0)]).react save).undergoAll
        [.event .resumed, .event (.frame 1.0), .event (key true), .event (.frame 1.0)]).react
          restore := fun _ => rfl
  have hrestore : start.undergoAll before = restored :=
    (hsplit start).trans (react_restore_saved hsaved.machine.coherent (Shelf.readsBack _)
      (by decide +kernel) hreport
      (Happening.sparesFile_of_events
        [.resumed, .frame 1.0, key true, .frame 1.0] (by decide +kernel))
      (by decide +kernel))
  have hc : c = restored.undergoAll after := by
    simp only [c, undergoAll_append, hrestore]
  rw [← hrestore] at hpaint
  rw [← hc] at hok hsurface hon
  have hafter : (start.undergoAll before).OverlooksNone after := by
    refine ⟨?_, trivial⟩
    intro h
    exact absurd h.1 (by decide +kernel)
  exact ⟨hstart, hpaint, hafter, hok, hsurface, hon,
    frame_shows_screen hstart (Or.inr hpaint) hafter 0.0 hok hsurface⟩

/-- A program draws and waits, and its machine is saved behind the frame.  Then it clears the
screen, and the saved machine comes back without its redraw flag.  The next frame does not
fail, and yet a pixel that is on stays dark. -/
theorem restored_picture_stays_dark :
    let options : Options := ⟨"games/x.ch8", 12, none, none⟩
    let program := [0xA0, 0x50, 0xD0, 0x05, 0xF0, 0x0A, 0x00, 0xE0, 0xF0, 0x0A]
    let around : Surroundings Shelf := ⟨[], Keystream.seedKey 1, Shelf.empty⟩
    let save : Event := .key ⟨some ⟨"F5"⟩, true, false, false⟩
    let key : Event := .key ⟨some ⟨"KeyX"⟩, true, false, false⟩
    let restore : Event := .key ⟨some ⟨"F9"⟩, true, false, false⟩
    let start := started options program around
    let c := start.undergoAll [.event .resumed, .event (.frame 1.0), .event save, .event key,
      .event (.frame 1.0), .event restore]
    let d := c.react (.frame 0.0)
    Console.start options program around = .ok start ∧
      (c.turn (.frame 0.0)).failure = none ∧ Bank.get d.machine.screen (pixel 0 0) = true ∧
      d.glow.get (pixel 0 0) = 0.0 ∧
      ∃ s, d.surface = some s ∧ (Bank.get s.frame (pixel 0 0)).alpha = 0 := by
  intro options program around save key restore start c d
  have hstart : Console.start options program around = .ok start :=
    start_eq_ok_iff.mpr ⟨List.not_mem_nil, by decide, rfl⟩
  let resumed := start.react .resumed
  let drawn := resumed.react (.frame 1.0)
  let waiting := (drawn.react save).react key
  let cleared := waiting.react (.frame 1.0)
  have hrun : (drawn.turn save).reports = [.stateSaved drawn.statePath] ∧
      drawn.machine.redraw = false ∧
      Bank.get resumed.machine.screen (pixel 0 0) = false ∧
      Bank.get drawn.machine.screen (pixel 0 0) = true ∧
      Bank.get waiting.machine.screen (pixel 0 0) = true ∧
      Bank.get cleared.machine.screen (pixel 0 0) = false ∧ cleared.machine.redraw = false ∧
      cleared.dirty = false ∧ cleared.pacer.backlog = 0.0 := by decide +kernel
  obtain ⟨hreport, hflag, hblank, hon, hwaiting, hoff, hflag', hclean, hbacklog⟩ := hrun
  have hdrawn : resumed.Painted drawn 1.0 := painted_of_drawn hflag (by rw [hblank, hon]; decide)
  have hcleared : waiting.Painted cleared 1.0 :=
    painted_of_drawn hflag' (by rw [hwaiting, hoff]; decide)
  have hsave : (drawn.react save).seen = drawn.seen := seen_react_key drawn _
  have hkey : waiting.seen = (drawn.react save).seen := seen_react_key (drawn.react save) _
  have hglow : waiting.glow = drawn.glow := (Prod.mk.inj (hkey.trans hsave)).1
  have hdark : resumed.glow = Glow.dark := rfl
  have hsettled : cleared.glow.Settled := by
    rw [hcleared.glow_eq, hglow, hdrawn.glow_eq, hdark]
    exact (Glow.settled_dark.decay _).decay _
  have hpixel : cleared.glow.get (pixel 0 0) = 0.0 := by
    rw [hcleared.glow_eq, hglow, hdrawn.glow_eq, Glow.get_decay, Glow.get_decay, hoff, hon]
    decide +kernel
  have hfirst : ∀ s : Console Shelf, s.undergoAll [.event .resumed, .event (.frame 1.0)] =
      (s.react .resumed).react (.frame 1.0) := fun _ => rfl
  have hreachable : drawn.Reachable := ⟨options, program, around, start, _, hstart, hfirst start⟩
  have hbetween : ∀ s : Console Shelf, s.undergoAll [.event key, .event (.frame 1.0)] =
      (s.react key).react (.frame 1.0) := fun _ => rfl
  have hsplit : ∀ s : Console Shelf,
      s.undergoAll [.event .resumed, .event (.frame 1.0), .event save, .event key,
        .event (.frame 1.0), .event restore] =
      ((((s.react .resumed).react (.frame 1.0)).react save).undergoAll
        [.event key, .event (.frame 1.0)]).react restore := fun _ => rfl
  have hrestore : c = ((drawn.react save).undergoAll [.event key, .event (.frame 1.0)]).setMachine
      { drawn.machine with
        noise := ((drawn.react save).undergoAll [.event key, .event (.frame 1.0)]).machine.noise
        tones := 0 } :=
    (hsplit start).trans (react_restore_saved hreachable.machine.coherent (Shelf.readsBack _)
      (by decide +kernel) hreport
      (Happening.sparesFile_of_events [key, .frame 1.0] (by decide +kernel))
      (by decide +kernel))
  rw [hbetween] at hrestore
  obtain ⟨hok, hscreen, hseen⟩ := turn_frame_of_unflagged cleared
    (m := { drawn.machine with noise := cleared.machine.noise, tones := 0 }) hflag
    hsettled.isFading hclean hbacklog
  rw [← hrestore] at hok hscreen hseen
  obtain ⟨t, ht, hframe⟩ := hcleared.surface_eq
  obtain ⟨hglow', hsurface⟩ := Prod.mk.inj hseen
  rw [ht] at hsurface
  obtain ⟨s, hs, hst⟩ := Option.map_eq_some_iff.mp hsurface
  refine ⟨hstart, hok, ?_, ?_, s, hs, ?_⟩
  · exact (congrArg (Bank.get · (pixel 0 0)) hscreen).trans hon
  · exact (congrArg (Bank.get · (pixel 0 0)) hglow').trans hpixel
  · rw [hst, hframe, Glow.get_frame, hpixel]
    decide +kernel

end Console

end ChipEight
