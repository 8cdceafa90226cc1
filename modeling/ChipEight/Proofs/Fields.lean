import ChipEight.Proofs.SavedText

/-!
# The values that fit a field

Each kind of field of a saved state has a reader and a writer.  `Codec` says of the
two, and of a description of values, that they belong together: the reader takes back
what the writer writes and reads nothing else, and the values described are those that
are written.

Numbers are read from their digits.  That nothing but what is written is read rests on
the grammar: no number of the grammar has a zero in front, so its digits are those of
the number they write (`natural?_eq_some`).
-/

namespace ChipEight

namespace Json.Value

/-- A natural number below a bound, in digits alone. -/
def IsNatBelow (bound : Nat) (v : Value) : Prop := ∃ n, n < bound ∧ v = .ofNat n

def IsBool (v : Value) : Prop := ∃ b, v = .bool b

/-- An array of any length. -/
def IsArrayOf (fits : Value → Prop) (v : Value) : Prop := ∃ vs, v = .array vs ∧ ∀ w ∈ vs, fits w

def IsSixteenOf (fits : Value → Prop) (v : Value) : Prop :=
  ∃ vs, v = .array vs ∧ vs.length = 16 ∧ ∀ w ∈ vs, fits w

/-- A number is read as a natural number only if it is written as that number is. -/
theorem natural?_eq_some {v : Value} (hv : v.Numeric) {n : Nat} (h : v.natural? = some n) :
    v = .ofNat n := by
  cases v with
  | number ds =>
      rw [natural?] at h
      split at h
      next hdigits =>
        cases h
        have hwhole := (numeric_number.mp hv).isWhole (List.all_eq_true.mp hdigits)
        rw [ofNat, hwhole.toDigits_eq]
      next => cases h
  | _ => cases h

end Json.Value

namespace SavedState

open Json (Value)

/-- `read?` takes back what `write` writes and reads nothing else, and `fits`
describes the values that are written. -/
structure Codec {α : Type} (read? : Value → Option α) (write : α → Value)
    (fits : Value → Prop) : Prop where
  read_write (a : α) : read? (write a) = some a
  eq_write {v : Value} {a : α} (hv : v.Numeric) (h : read? v = some a) : v = write a
  fits_iff {v : Value} : fits v ↔ ∃ a, v = write a

/-! ## Numbers and truth values -/

theorem codec_nat {α : Type} {bound : Nat} {toNat : α → Nat} {ofNat : Nat → α}
    (hlt : ∀ a, toNat a < bound) (hto : ∀ {n}, n < bound → toNat (ofNat n) = n)
    (hof : ∀ {a}, ofNat (toNat a) = a) :
    Codec (fun v => (natBelow? bound v).map ofNat) (fun a => .ofNat (toNat a))
      (Value.IsNatBelow bound) where
  read_write a := by rw [natBelow?_ofNat (hlt a), Option.map_some, hof]
  eq_write {v a} hv h := by
    obtain ⟨n, hn, rfl⟩ := Option.map_eq_some_iff.mp h
    obtain ⟨hread, hbelow⟩ := Option.filter_eq_some_iff.mp hn
    rw [hto (of_decide_eq_true hbelow)]
    exact Value.natural?_eq_some hv hread
  fits_iff {v} := by
    constructor
    · rintro ⟨n, hn, rfl⟩
      exact ⟨ofNat n, by rw [hto hn]⟩
    · rintro ⟨a, rfl⟩
      exact ⟨toNat a, hlt a, rfl⟩

theorem codec_byte : Codec byte? (fun b => .ofNat b.toNat) (Value.IsNatBelow 0x100) :=
  codec_nat UInt8.toNat_lt UInt8.toNat_ofNat_of_lt' UInt8.ofNat_toNat

theorem codec_word : Codec word? (fun w => .ofNat w.toNat) (Value.IsNatBelow 0x10000) :=
  codec_nat UInt16.toNat_lt UInt16.toNat_ofNat_of_lt' UInt16.ofNat_toNat

theorem codec_doubleWord :
    Codec doubleWord? (fun w => .ofNat w.toNat) (Value.IsNatBelow 0x100000000) :=
  codec_nat UInt32.toNat_lt UInt32.toNat_ofNat_of_lt' UInt32.ofNat_toNat

theorem codec_bool : Codec bool? .bool Value.IsBool where
  read_write := bool?_bool
  eq_write {v b} _ h := by
    cases v with
    | bool b' =>
        cases h
        rfl
    | _ => cases h
  fits_iff := Iff.rfl

/-! ## Arrays -/

section Arrays

variable {α : Type} {read? : Value → Option α} {write : α → Value} {fits : Value → Prop}

theorem Codec.mapM_eq_some (h : Codec read? write fits) {vs : List Value}
    (hvs : ∀ v ∈ vs, v.Numeric) {xs : List α} (hread : vs.mapM read? = some xs) :
    vs = xs.map write := by
  induction vs generalizing xs with
  | nil =>
      cases hread
      rfl
  | cons v vs ih =>
      obtain ⟨hv, hvs⟩ := List.forall_mem_cons.mp hvs
      simp only [List.mapM_cons, Option.bind_eq_bind, Option.bind_eq_some_iff] at hread
      obtain ⟨x, hx, xs', hxs, he⟩ := hread
      cases he
      rw [List.map_cons, ← h.eq_write hv hx, ← ih hvs hxs]

theorem Codec.exists_map (h : Codec read? write fits) {vs : List Value}
    (hvs : ∀ v ∈ vs, fits v) : ∃ xs : List α, vs = xs.map write := by
  induction vs with
  | nil => exact ⟨[], rfl⟩
  | cons v vs ih =>
      obtain ⟨hv, hvs'⟩ := List.forall_mem_cons.mp hvs
      obtain ⟨x, rfl⟩ := h.fits_iff.mp hv
      obtain ⟨xs, rfl⟩ := ih hvs'
      exact ⟨x :: xs, rfl⟩

theorem Codec.fits_of_mem_map (h : Codec read? write fits) (xs : List α) :
    ∀ v ∈ xs.map write, fits v := by
  intro v hv
  obtain ⟨x, -, rfl⟩ := List.mem_map.mp hv
  exact h.fits_iff.mpr ⟨x, rfl⟩

theorem Codec.list (h : Codec read? write fits) :
    Codec (list? read?) (fun xs => .array (xs.map write)) (Value.IsArrayOf fits) where
  read_write xs := list?_map h.read_write xs
  eq_write {v xs} hv hread := by
    cases v with
    | array vs => rw [h.mapM_eq_some (Value.numeric_array.mp hv) hread]
    | _ => cases hread
  fits_iff {v} := by
    constructor
    · rintro ⟨vs, rfl, hvs⟩
      obtain ⟨xs, rfl⟩ := h.exists_map hvs
      exact ⟨xs, rfl⟩
    · rintro ⟨xs, rfl⟩
      exact ⟨_, rfl, h.fits_of_mem_map xs⟩

theorem Codec.sixteen (h : Codec read? write fits) :
    Codec (sixteen? read?) (fun b : Bank α 16 => .array (b.toList.map write))
      (Value.IsSixteenOf fits) where
  read_write b := sixteen?_map h.read_write b
  eq_write {v b} hv hread := by
    simp only [sixteen?, Option.bind_eq_bind, Option.bind_eq_some_iff] at hread
    obtain ⟨xs, hxs, hread⟩ := hread
    split at hread
    · cases hread
      exact h.list.eq_write hv hxs
    · cases hread
  fits_iff {v} := by
    constructor
    · rintro ⟨vs, rfl, hlen, hvs⟩
      obtain ⟨xs, rfl⟩ := h.exists_map hvs
      rw [List.length_map] at hlen
      exact ⟨⟨xs.toArray, hlen⟩, rfl⟩
    · rintro ⟨b, rfl⟩
      refine ⟨_, rfl, ?_, h.fits_of_mem_map b.toList⟩
      rw [List.length_map, b.length_toList]

end Arrays

theorem codec_keyWait :
    Codec keyWait? (fun wait => (wait.map keypadValue).getD .null)
      (fun v => v = .null ∨ v.IsSixteenOf Value.IsBool) where
  read_write := keyWait?_keypadValue
  eq_write {v wait} hv h := by
    unfold keyWait? at h
    split at h
    · cases h
      rfl
    · obtain ⟨keys, hkeys, rfl⟩ := Option.map_eq_some_iff.mp h
      exact codec_bool.sixteen.eq_write hv hkeys
  fits_iff {v} := by
    rw [codec_bool.sixteen.fits_iff]
    constructor
    · rintro (rfl | ⟨keys, rfl⟩)
      · exact ⟨none, rfl⟩
      · exact ⟨some keys, rfl⟩
    · rintro ⟨_ | keys, rfl⟩
      · exact Or.inl rfl
      · exact Or.inr ⟨keys, rfl⟩

end SavedState

end ChipEight
