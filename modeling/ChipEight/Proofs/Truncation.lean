import ChipEight.Proofs.Json.Endings
import ChipEight.Proofs.Reachable

/-!
# Cut and padded texts

A state is written between brackets, so its text tells where it ends.  A text that
holds a state holds the same state with blanks behind it, and none with anything else
behind it (`parse?_append_eq_some_iff`).

So no text that holds a state is a beginning of another, except for blanks at the end.
What a machine saves ends with a bracket.  If a part of it is missing at the end, as
when a file was not written to its end, the rest holds no state, and a machine that is
given it stays as it was.
-/

namespace ChipEight

open Json (Value)

namespace SavedState

variable {t u : String} {s s' : SavedState}

theorem isBracketed_of_ofValue? {v : Value} (h : ofValue? v = some s) :
    v.isBracketed = true := by
  cases v with
  | array _ | object _ => rfl
  | _ => cases h

/-- Behind a text that holds a state there can only be blanks. -/
theorem parse?_append_eq_some_iff (h : parse? t = some s) :
    parse? (t ++ u) = some s' ↔ s' = s ∧ ∀ c ∈ u.toList, Json.isBlank c = true := by
  obtain ⟨v, hread, hv⟩ := Option.bind_eq_some_iff.mp h
  have hwritten := Value.read?_eq_some_iff.mp hread
  have hb := isBracketed_of_ofValue? hv
  constructor
  · intro h'
    obtain ⟨w, hread', hw⟩ := Option.bind_eq_some_iff.mp h'
    have hwritten' := Value.read?_eq_some_iff.mp hread'
    obtain ⟨rfl, hu⟩ := (Value.writtenAs_append_iff hwritten hb).mp hwritten'
    rw [hv] at hw
    exact ⟨(Option.some.inj hw).symm, hu⟩
  · rintro ⟨rfl, hu⟩
    have hwritten' := (Value.writtenAs_append_iff hwritten hb).mpr ⟨rfl, hu⟩
    rw [parse?, Value.read?_eq_some_iff.mpr hwritten', Option.bind_some, hv]

theorem parse?_append_eq_none (h : parse? t = some s)
    (hu : ∃ c ∈ u.toList, Json.isBlank c = false) : parse? (t ++ u) = none := by
  rw [Option.eq_none_iff_forall_ne_some]
  intro s' h'
  obtain ⟨c, hc, hblank⟩ := hu
  rw [((parse?_append_eq_some_iff h).mp h').2 c hc] at hblank
  cases hblank

/-- No part of a printed text that is missing something at its end holds a state. -/
theorem parse?_of_cut (h : t ++ u = s.text) (hu : u ≠ "") : parse? t = none := by
  rw [Option.eq_none_iff_forall_ne_some]
  intro s' ht
  have hwhole : parse? (t ++ u) = some s := by rw [h, parse?_text]
  have hblanks := ((parse?_append_eq_some_iff ht).mp hwhole).2
  have hlast : (t ++ u).toList.getLast? = some '\x7d' := by
    rw [h, text, Value.getLast?_render_object]
  have hne : u.toList ≠ [] := fun he => hu (String.toList_eq_nil_iff.mp he)
  have hblank := hblanks _ (List.getLast_mem hne)
  rw [String.toList_append, List.getLast?_append, List.getLast?_eq_some_getLast hne,
    Option.some_or] at hlast
  rw [Option.some.inj hlast] at hblank
  cases hblank

end SavedState

/-- If a text holds a state and goes on to another that does, there are only blanks
behind it and both hold the same state.  Nothing that was saved by a machine is taken
by another when it is cut short, or when anything but blanks stands behind it; the
machine that refuses it stays as it was. -/
theorem no_cut_or_padded_text :
    (∀ t u s s', SavedState.parse? t = some s → SavedState.parse? (t ++ u) = some s' →
      (∀ c ∈ u.toList, c = ' ' ∨ c = '\t' ∨ c = '\n' ∨ c = '\r') ∧ s = s') ∧
    ∀ m m' : Machine,
      (∀ t u, t ++ u = m.save → u ≠ "" →
        (Procedure.restore t).run m' = .error .malformed m') ∧
      ∀ u, (∃ c ∈ u.toList, c ≠ ' ' ∧ c ≠ '\t' ∧ c ≠ '\n' ∧ c ≠ '\r') →
        (Procedure.restore (m.save ++ u)).run m' = .error .malformed m' := by
  refine ⟨?_, fun m m' => ⟨?_, ?_⟩⟩
  · intro t u s s' h h'
    obtain ⟨rfl, hu⟩ := (SavedState.parse?_append_eq_some_iff h).mp h'
    refine ⟨fun c hc => ?_, rfl⟩
    simpa only [Json.isBlank, Bool.or_eq_true, beq_iff_eq, or_assoc] using hu c hc
  · intro t u h hu
    exact Procedure.run_restore_malformed (SavedState.parse?_of_cut h hu) m'
  · rintro u ⟨c, hc, hblank⟩
    have hparse := SavedState.parse?_text (SavedState.capture m)
    refine Procedure.run_restore_malformed ?_ m'
    refine SavedState.parse?_append_eq_none hparse ⟨c, hc, ?_⟩
    simp only [Json.isBlank, hblank, beq_eq_false_iff_ne.mpr, Bool.or_false, ne_eq,
      not_false_eq_true]

/-- A line feed may stand behind what was saved, but neither may its last bracket be
missing nor a second one follow. -/
theorem last_bracket_stands_once :
    let m := ((Pacer.fresh (Keystream.seedKey 1) 12).serveAll [.load [0xF0, 0x0A], .tick]).machine
    let s := SavedState.capture m
    let cut := String.ofList m.save.toList.dropLast
    (SavedState.parse? (m.save ++ "\n") = some s ∧ ∀ s',
      SavedState.parse? (m.save ++ "\n") = some s' → s = s') ∧
    (cut ++ "\x7d" = m.save ∧
      (Procedure.restore cut).run (Machine.ofSeed 2) = .error .malformed (Machine.ofSeed 2)) ∧
    (Procedure.restore (m.save ++ "\x7d\n")).run (Machine.ofSeed 2) =
      .error .malformed (Machine.ofSeed 2) := by
  intro m s cut
  have hparse : SavedState.parse? m.save = some s := s.parse?_text
  have hblank : SavedState.parse? (m.save ++ "\n") = some s :=
    (SavedState.parse?_append_eq_some_iff hparse).mpr ⟨rfl, List.forall_mem_singleton.mpr rfl⟩
  have hcut : cut ++ "\x7d" = m.save := by
    obtain ⟨cs, hcs⟩ := List.getLast?_eq_some_iff.mp (Value.getLast?_render_object s.members)
    have hsave : m.save.toList = cs ++ ['\x7d'] := hcs
    apply String.toList_inj.mp
    rw [String.toList_append, String.toList_ofList, hsave, List.dropLast_concat]
    rfl
  obtain ⟨hgoes, hrefused⟩ := no_cut_or_padded_text
  refine ⟨⟨hblank, fun s' h => (hgoes _ _ s s' hparse h).2⟩, ⟨hcut, ?_⟩, ?_⟩
  · exact (hrefused m _).1 cut "\x7d" hcut (by decide)
  · exact (hrefused m _).2 "\x7d\n" ⟨'\x7d', by decide⟩

end ChipEight
