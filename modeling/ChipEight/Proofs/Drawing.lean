import ChipEight.Proofs.Completed
import ChipEight.Proofs.Footprint
import ChipEight.Proofs.Strict.Drawing

/-!
# What is drawn

The instruction that draws flips the pixels under the set bits of a sprite in memory, around
all four edges of the screen, and its flag tells if one of them was on.  The sprite and its
corner are read before anything is written, so the flag may be one of the registers that
say where the corner is.

What the screen shows behind a run that does not clear it are the sprites drawn in the run
(`Machine.serveAll_screen_drawn`), wherever they were taken from.  By what is known of
sprites, neither their order nor a pair of equal ones makes a difference.
-/

namespace ChipEight

theorem flagByte_eq_one_iff {b : Bool} : flagByte b = 1 ↔ b = true := by
  cases b <;> decide

namespace Machine

variable {m : Machine}

/-! ## One instruction -/

theorem register_drawSprite_flag (m : Machine) (sprite : Sprite) :
    (m.drawSprite sprite).register flagRegister = flagByte (m.screen.hits sprite) :=
  m.register_setRegister_self flagRegister _

/-- A sprite that is drawn lies in memory, and there is a word behind the instruction. -/
theorem run_draw {x y n : Digit} (h : m.completed? = some (.act (.draw x y n))) :
    m.index.toNat + n.val ≤ memorySize ∧
      Procedure.cycle.run m =
        .ok .frameDone
          { m.drawSprite (m.spriteAt x y n) with pc := m.pc + 2, tones := m.countTone.tones } := by
  obtain ⟨-, -, hspan⟩ := completed?_act_iff.mp h
  exact ⟨hspan n.val rfl, run_completed_act h nofun rfl⟩

theorem after_draw {x y n : Digit} (h : m.completed? = some (.act (.draw x y n))) :
    Procedure.cycle.after m =
      { m.drawSprite (m.spriteAt x y n) with pc := m.pc + 2, tones := m.countTone.tones } :=
  Procedure.after_of_run_ok (run_draw h).2

end Machine

/-- Drawing a sprite flips each pixel under a set bit of it, around the edges of the screen,
and no other.  The flag is 1 if one of these pixels was on, and 0 otherwise.  Nothing else is
changed but the redraw flag, the program counter and the tones.  Taken bit by bit and in
place, without a trap, it comes to the same. -/
theorem drawing_flips_pixels_under_sprite {m : Machine} {x y n : Digit}
    (h : m.completed? = some (.act (.draw x y n))) :
    let bit := m.spriteBit x y n
    let hit := ∃ row column, bit row column = true ∧ m.screen.get (pixel row column) = true
    ∃ after, Procedure.cycle.run m = .ok .frameDone after ∧
      (∀ row column, after.screen.get (pixel row column) =
        (m.screen.get (pixel row column) ^^ bit row column)) ∧
      (hit → after.register flagRegister = 1) ∧
      (¬ hit → after.register flagRegister = 0) ∧
      after =
        { m with
          screen := after.screen
          registers := m.registers.put flagRegister (after.register flagRegister)
          redraw := true
          pc := m.pc + 2
          tones := m.countTone.tones } ∧
      Strict.draw m x y n =
        .ok { m with screen := after.screen, registers := after.registers, redraw := true } := by
  intro bit hit
  obtain ⟨hspan, hrun⟩ := Machine.run_draw h
  have hrows := m.spriteAt_rows_le x y n
  have hbit : (m.spriteAt x y n).bitAt = bit :=
    funext fun row => funext fun column => m.bitAt_spriteAt x y n row column
  have hhits : m.screen.hits (m.spriteAt x y n) = true ↔ hit := by
    rw [Screen.hits_eq_true_iff hrows, hbit]
  have hflag := m.register_drawSprite_flag (m.spriteAt x y n)
  refine ⟨_, hrun, ?_, ?_, ?_, ?_, Strict.draw_eq hspan⟩
  · intro row column
    rw [← hbit]
    exact Screen.get_draw m.screen hrows row column
  · intro hon
    exact hflag.trans (congrArg flagByte (hhits.mpr hon))
  · intro hoff
    exact hflag.trans (congrArg flagByte (Bool.eq_false_iff.mpr (mt hhits.mp hoff)))
  · exact congrArg
      (fun b => { m with
        screen := m.screen.draw (m.spriteAt x y n)
        registers := m.registers.put flagRegister b
        redraw := true
        pc := m.pc + 2
        tones := m.countTone.tones })
      hflag.symm

/-- A glyph that goes around the lower and the right edge, at the column in the register of
the flag.  It was drawn there before, so it goes out and the flag is set. -/
theorem glyph_around_edges_goes_out :
    let m := ((Pacer.fresh (Keystream.seedKey 1) 12).serveAll
      (.load [0x6F, 0x3E, 0x62, 0x1E, 0xA0, 0x50, 0xDF, 0x25, 0x6F, 0x3E, 0xDF, 0x25] ::
        List.replicate 5 (.machine .cycle))).machine
    m.completed? = some (.act (.draw 15 2 5)) ∧ m.register 15 = 62 ∧ m.register 2 = 30 ∧
      m.screen.get (pixel 0 1) = true ∧
      ∃ after, Procedure.cycle.run m = .ok .frameDone after ∧
        after.screen.get (pixel 0 1) = false ∧ after.register 15 = 1 := by
  intro m
  have hm : m.completed? = some (.act (.draw 15 2 5)) ∧ m.register 15 = 62 ∧ m.register 2 = 30 ∧
      m.spriteBit 15 2 5 0 1 = true ∧ m.screen.get (pixel 0 1) = true := by decide +kernel
  obtain ⟨h, hx, hy, hbit, hon⟩ := hm
  obtain ⟨after, hrun, hscreen, hset, -⟩ := drawing_flips_pixels_under_sprite h
  refine ⟨h, hx, hy, hon, after, hrun, ?_, hset ⟨0, 1, hbit, hon⟩⟩
  rw [hscreen, hon, hbit]
  rfl

/-! ## All that a run draws -/

namespace Machine

variable {m : Machine}

/-- Draw sprites one after the other. -/
def drawSprites (m : Machine) (sprites : List Sprite) : Machine := sprites.foldl drawSprite m

/-- The sprite an instruction draws. -/
def spriteOf? (m : Machine) : Instruction → Option Sprite
  | .act (.draw x y n) => some (m.spriteAt x y n)
  | _ => none

/-- The sprites that the cycles of the calls draw, from the first to the last. -/
def drawn : Machine → List Call → List Sprite
  | _, [] => []
  | m, c :: cs => (m.executed [c]).filterMap m.spriteOf? ++ (m.serve c).2.drawn cs

theorem drawSprites_screen (m : Machine) (sprites : List Sprite) :
    (m.drawSprites sprites).screen = sprites.foldl Screen.draw m.screen := by
  induction sprites generalizing m with
  | nil => rfl
  | cons sprite sprites ih => exact ih (m.drawSprite sprite)

/-- An instruction that does not clear the screen draws its sprite on it, if it has one. -/
theorem effect_screen_drawn {i : Instruction} (hi : i ≠ .act .clearScreen) :
    (m.effect i).2.screen = (m.spriteOf? i).toList.foldl Screen.draw m.screen := by
  cases i with
  | act a =>
      cases a with
      | clearScreen => exact absurd rfl hi
      | draw x y n => rfl
      | _ => exact effect_screen rfl
  | _ => exact effect_screen rfl

theorem serve_screen_drawn {c : Call} (hl : c.loads = false)
    (hc : .act .clearScreen ∉ m.executed [c]) :
    (m.serve c).2.screen = ((m.executed [c]).filterMap m.spriteOf?).foldl Screen.draw m.screen := by
  rw [executed_singleton] at hc ⊢
  cases c with
  | cycle =>
      rcases completed?_cases m with ⟨hi, ha⟩ | ⟨i, next, hi, -, ha⟩
      · rw [serve, hi, ha]
        rfl
      · rw [hi] at hc ⊢
        have hne : i ≠ .act .clearScreen := fun he => hc (he ▸ List.mem_singleton_self i)
        rw [serve, ha, complete_eq]
        refine (effect_screen_drawn hne).trans ?_
        cases hs : m.spriteOf? i <;> simp [hs]
  | reset | load _ | restore _ => cases hl
  | _ => rfl

/-- Behind a run that does not clear the screen, it shows what it showed before and the
sprites that were drawn. -/
theorem serveAll_screen_drawn {calls : List Call} (hl : ∀ c ∈ calls, c.loads = false)
    (hc : .act .clearScreen ∉ m.executed calls) :
    (m.serveAll calls).2.screen = (m.drawn calls).foldl Screen.draw m.screen := by
  induction calls generalizing m with
  | nil => rfl
  | cons c cs ih =>
      obtain ⟨hlc, hlcs⟩ := List.forall_mem_cons.mp hl
      rw [executed_cons, List.mem_append, not_or] at hc
      rw [drawn, List.foldl_append, ← serve_screen_drawn hlc hc.1]
      exact ih hlcs hc.2

/-! ## The same sprite once more -/

/-- A machine with the same bytes at the index and the same corner draws the same sprite. -/
theorem spriteAt_congr {m m' : Machine} {x y n : Digit} (hindex : m'.index = m.index)
    (hx : m'.register x = m.register x) (hy : m'.register y = m.register y)
    (hbytes : ∀ k < n.val, m'.byteAt (m'.index.toNat + k) = m.byteAt (m'.index.toNat + k)) :
    m'.spriteAt x y n = m.spriteAt x y n := by
  have hrows : m'.bytesFrom m'.index.toNat n.val = m.bytesFrom m.index.toNat n.val := by
    rw [← hindex]
    exact List.map_congr_left fun k hk => hbytes k (List.mem_range.mp hk)
  rw [spriteAt, spriteAt, hx, hy, hrows]

/-- A sprite that is drawn where it was just drawn goes out, and hits what it had lit. -/
theorem redraw_cancels {x y n : Digit} {s : Screen}
    (h : m.completed? = some (.act (.draw x y n))) (hs : m.screen = s.draw (m.spriteAt x y n)) :
    (Procedure.cycle.after m).screen = s ∧
      ((Procedure.cycle.after m).register flagRegister = 1 ↔
        ∃ row column, (m.spriteAt x y n).bitAt row column = true ∧
          s.get (pixel row column) = false) := by
  rw [after_draw h]
  constructor
  · exact (congrArg (Screen.draw · (m.spriteAt x y n)) hs).trans (Screen.draw_draw s _)
  · have hflag := m.register_drawSprite_flag (m.spriteAt x y n)
    rw [← Screen.hits_draw_iff (m.spriteAt_rows_le x y n), ← hs, ← flagByte_eq_one_iff, ← hflag]
    rfl

end Machine

/-- The screen behind a run that does not clear it is what all its sprites make of it, drawn
one after the other.  Sprites make the same of a screen in any order, and drawn once more,
in any order, they leave it as it was before.  The same holds of one instruction that is
executed again with its sprite and its registers unchanged, and then the flag tells if a
pixel under a set bit was off at first. -/
theorem sprites_commute_and_cancel :
    (∀ (m : Machine) (calls : List Call), (∀ c ∈ calls, c.loads = false) →
      .act .clearScreen ∉ m.executed calls →
        (m.serveAll calls).2.screen = (m.drawSprites (m.drawn calls)).screen) ∧
      (∀ (m : Machine) (sprites sprites' : List Sprite), sprites.Perm sprites' →
        (m.drawSprites sprites').screen = (m.drawSprites sprites).screen ∧
          ((m.drawSprites sprites).drawSprites sprites').screen = m.screen) ∧
      ∀ (m m' : Machine) (x y n : Digit), x ≠ flagRegister → y ≠ flagRegister →
        m.completed? = some (.act (.draw x y n)) → m'.completed? = some (.act (.draw x y n)) →
          let first := Procedure.cycle.after m
          let second := Procedure.cycle.after m'
          m'.screen = first.screen → m'.index = first.index →
          m'.register x = first.register x → m'.register y = first.register y →
          (∀ k < n.val,
            m'.byteAt (m'.index.toNat + k) = first.byteAt (m'.index.toNat + k)) →
            second.screen = m.screen ∧
              (second.register flagRegister = 1 ↔
                ∃ row column, m.spriteBit x y n row column = true ∧
                  m.screen.get (pixel row column) = false) := by
  refine ⟨?_, ?_, ?_⟩
  · intro m calls hl hc
    rw [Machine.serveAll_screen_drawn hl hc, Machine.drawSprites_screen]
  · intro m sprites sprites' hperm
    simp only [Machine.drawSprites_screen]
    constructor
    · exact hperm.symm.foldl_eq' (fun a _ b _ s => Screen.draw_comm s a b) m.screen
    · exact Screen.foldl_foldl_perm Screen.draw_comm Screen.draw_draw hperm m.screen
  · intro m m' x y n hx hy h h' first second hscreen hindex hregx hregy hbytes
    have hfirst : first = { m.drawSprite (m.spriteAt x y n) with
        pc := m.pc + 2, tones := m.countTone.tones } := Machine.after_draw h
    -- the flag is not one of the registers that place the sprite, so the first drawing
    -- leaves all that the sprite is read from
    have hkept (z : Digit) (hz : z ≠ flagRegister) : first.register z = m.register z := by
      rw [hfirst]
      exact Machine.register_setRegister_of_ne hz _
    have hsprite : m'.spriteAt x y n = m.spriteAt x y n := by
      apply Machine.spriteAt_congr
      · rw [hindex, hfirst]
        rfl
      · rw [hregx, hkept x hx]
      · rw [hregy, hkept y hy]
      · intro k hk
        rw [hbytes k hk, hfirst]
        rfl
    have hdrawn : m'.screen = m.screen.draw (m'.spriteAt x y n) := by
      rw [hscreen, hfirst, hsprite]
      rfl
    simp only [← Machine.bitAt_spriteAt, ← hsprite]
    exact Machine.redraw_cancels h' hdrawn

/-- A glyph that overlaps another sprite around the edges: drawn in one order and then in the
other, both are gone.  Executed twice, the instruction for the glyph leaves nothing but its
flag. -/
theorem glyph_drawn_twice_is_gone :
    let m := ((Pacer.fresh (Keystream.seedKey 1) 12).serveAll
      (.load [0xA0, 0x50, 0x60, 0x3E, 0x61, 0x1E, 0xD0, 0x15, 0xD0, 0x15] ::
        List.replicate 3 (.machine .cycle))).machine
    let m' := Procedure.cycle.after m
    let glyph := m.spriteAt 0 1 5
    let bar : Sprite := ⟨60, 63, [0xFF]⟩
    m.completed? = some (.act (.draw 0 1 5)) ∧ m'.completed? = some (.act (.draw 0 1 5)) ∧
      (m.serveAll [.cycle, .tickTimers]).2.screen =
        (m.drawSprites (m.drawn [.cycle, .tickTimers])).screen ∧
      ((m.drawSprites [glyph, bar]).drawSprites [bar, glyph]).screen = m.screen ∧
      (Procedure.cycle.after m').screen = m.screen ∧
      (Procedure.cycle.after m').register flagRegister = 1 := by
  intro m m' glyph bar
  have hm : m.completed? = some (.act (.draw 0 1 5)) ∧
      m'.completed? = some (.act (.draw 0 1 5)) ∧
      .act .clearScreen ∉ m.executed [.cycle, .tickTimers] ∧
      m.spriteBit 0 1 5 0 1 = true ∧ m.screen.get (pixel 0 1) = false := by decide +kernel
  obtain ⟨h, h', hclear, hbit, hoff⟩ := hm
  obtain ⟨hruns, hlists, htwice⟩ := sprites_commute_and_cancel
  have hsecond := htwice m m' 0 1 5 (by decide) (by decide) h h' rfl rfl rfl rfl fun _ _ => rfl
  exact ⟨h, h', hruns m _ (by decide) hclear, (hlists m _ _ (List.Perm.swap bar glyph [])).2,
    hsecond.1, hsecond.2.mpr ⟨0, 1, hbit, hoff⟩⟩

end ChipEight
