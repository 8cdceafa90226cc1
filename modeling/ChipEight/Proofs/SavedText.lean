import Mathlib.Data.Option.Basic
import ChipEight.Proofs.Json.RoundTrip
import ChipEight.SavedState.Schema

/-!
# The text of a saved state is read back

Every saved state is read back from its text (`parse?_text`), whatever its fields
hold.  Each kind of field has a reader and a writer of its own, and one lemma that
the reader undoes the writer; `ofMembers?_members` puts these together.
-/

namespace ChipEight

namespace SavedState

open Json (Value)

/-! ## Fields -/

theorem natBelow?_ofNat {bound n : Nat} (h : n < bound) :
    natBelow? bound (.ofNat n) = some n := by
  rw [natBelow?, Value.natural?_ofNat, Option.filter_some, if_pos (decide_eq_true h)]

theorem byte?_ofNat (b : UInt8) : byte? (.ofNat b.toNat) = some b := by
  rw [byte?, natBelow?_ofNat b.toNat_lt, Option.map_some, UInt8.ofNat_toNat]

theorem word?_ofNat (w : UInt16) : word? (.ofNat w.toNat) = some w := by
  rw [word?, natBelow?_ofNat w.toNat_lt, Option.map_some, UInt16.ofNat_toNat]

theorem doubleWord?_ofNat (w : UInt32) : doubleWord? (.ofNat w.toNat) = some w := by
  rw [doubleWord?, natBelow?_ofNat w.toNat_lt, Option.map_some, UInt32.ofNat_toNat]

section Arrays

variable {α : Type} {element? : Value → Option α} {write : α → Value}

theorem list?_map (h : ∀ a, element? (write a) = some a) (xs : List α) :
    list? element? (.array (xs.map write)) = some xs := by
  rw [list?]
  induction xs with
  | nil => rfl
  | cons x xs ih =>
      rw [List.map_cons, List.mapM_cons, h, ih]
      rfl

theorem sixteen?_map (h : ∀ a, element? (write a) = some a) (b : Bank α 16) :
    sixteen? element? (.array (b.toList.map write)) = some b := by
  simp only [sixteen?, list?_map h, Option.bind_eq_bind, Option.bind_some]
  rw [dif_pos b.length_toList]
  rfl

theorem numeric_array_map (h : ∀ a, (write a).Numeric) (xs : List α) :
    (Value.array (xs.map write)).Numeric := by
  rw [Value.numeric_array]
  intro v hv
  obtain ⟨a, _, rfl⟩ := List.mem_map.mp hv
  exact h a

end Arrays

theorem list?_bytesValue (bs : List UInt8) : list? byte? (bytesValue bs) = some bs :=
  list?_map byte?_ofNat bs

theorem list?_wordsValue (ws : List UInt16) : list? word? (wordsValue ws) = some ws :=
  list?_map word?_ofNat ws

theorem sixteen?_bytesValue (b : Bank UInt8 16) :
    sixteen? byte? (bytesValue b.toList) = some b := sixteen?_map byte?_ofNat b

theorem bool?_bool (b : Bool) : bool? (.bool b) = some b := rfl

theorem sixteen?_keypadValue (keys : Keypad) :
    sixteen? bool? (keypadValue keys) = some keys := sixteen?_map bool?_bool keys

theorem keyWait?_keypadValue (wait : Option Keypad) :
    keyWait? ((wait.map keypadValue).getD .null) = some wait := by
  cases wait with
  | none => rfl
  | some keys =>
      rw [Option.map_some, Option.getD_some, keyWait?, sixteen?_keypadValue]
      · rfl
      · intro he
        cases he

/-! ## All members -/

theorem names_members (s : SavedState) : s.members.map Prod.fst = fieldNames := rfl

theorem name_mem_fieldNames {s : SavedState} {m : String × Value} (hm : m ∈ s.members) :
    m.1 ∈ fieldNames := by
  rw [← s.names_members]
  exact List.mem_map_of_mem hm

theorem ofMembers?_members (s : SavedState) : ofMembers? s.members = some s := by
  have hnodup : (s.members.map Prod.fst).Nodup := by
    rw [names_members]
    decide
  have hknown : ∀ m ∈ s.members, m.1 ∈ fieldNames := fun _ hm => name_mem_fieldNames hm
  rw [ofMembers?, (Option.guard_eq_some' ()).mpr hknown, (Option.guard_eq_some' ()).mpr hnodup]
  simp [members, List.lookup_cons, doubleWord?_ofNat, list?_bytesValue, sixteen?_bytesValue,
    word?_ofNat, list?_wordsValue, byte?_ofNat, sixteen?_keypadValue, bool?_bool,
    keyWait?_keypadValue]

theorem numeric_keypadValue (keys : Keypad) : (keypadValue keys).Numeric :=
  numeric_array_map Value.numeric_bool _

theorem numeric_bytesValue (bs : List UInt8) : (bytesValue bs).Numeric := by
  refine numeric_array_map ?_ bs
  intro b
  exact Value.numeric_ofNat b.toNat

theorem numeric_wordsValue (ws : List UInt16) : (wordsValue ws).Numeric := by
  refine numeric_array_map ?_ ws
  intro w
  exact Value.numeric_ofNat w.toNat

theorem numeric_members (s : SavedState) : ∀ m ∈ s.members, m.2.Numeric := by
  have hwait : ((s.awaitingKey.map keypadValue).getD .null).Numeric := by
    cases s.awaitingKey with
    | none => exact Value.numeric_null
    | some keys => exact numeric_keypadValue keys
  simp only [members, List.forall_mem_cons]
  exact ⟨Value.numeric_ofNat _, numeric_bytesValue _, numeric_bytesValue _, Value.numeric_ofNat _,
    Value.numeric_ofNat _, numeric_wordsValue _, Value.numeric_ofNat _, Value.numeric_ofNat _,
    numeric_keypadValue _, numeric_bytesValue _, Value.numeric_bool _, hwait, nofun⟩

/-- A saved state is read back from its text. -/
theorem parse?_text (s : SavedState) : parse? s.text = some s := by
  have hread := Value.read?_render (Value.numeric_object.mpr s.numeric_members)
  rw [parse?, text, hread, Option.bind_some, ofValue?, ofMembers?_members]

end SavedState

end ChipEight
