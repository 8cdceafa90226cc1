import ChipEight.Json.Token

/-!
# Numbers and strings as they are written

The grammar of a number (`IsNumber`) and the ways to write a string (`Spelling`), and
that the readers accept these and nothing else.

A number is the one token whose end depends on what comes behind it.  `Stops` says of
a text that no number goes on with it, and a number in front of such a text is read as
far as it goes (`number?_append`).  A string tells its own end: it is read back
character by character up to its closing quote, in whatever way its characters are
written (`stringBody?_spelling`).
-/

namespace ChipEight.Json

/-! ## The grammar of numbers -/

/-- Digits, at least one. -/
def IsDigits (ds : List Char) : Prop := ds ≠ [] ∧ ∀ d ∈ ds, d.isDigit = true

/-- A lone zero, or digits that start with none. -/
def IsWhole (ds : List Char) : Prop := ds = ['0'] ∨ IsDigits ds ∧ ds.head? ≠ some '0'

inductive IsFraction : List Char → Prop where
  | none : IsFraction []
  | point {ds : List Char} (h : IsDigits ds) : IsFraction ('.' :: ds)

inductive IsSigned : List Char → Prop where
  | none {ds : List Char} (h : IsDigits ds) : IsSigned ds
  | plus {ds : List Char} (h : IsDigits ds) : IsSigned ('+' :: ds)
  | minus {ds : List Char} (h : IsDigits ds) : IsSigned ('-' :: ds)

inductive IsExponent : List Char → Prop where
  | none : IsExponent []
  | small {ds : List Char} (h : IsSigned ds) : IsExponent ('e' :: ds)
  | capital {ds : List Char} (h : IsSigned ds) : IsExponent ('E' :: ds)

inductive IsMagnitude : List Char → Prop where
  | parts {whole fraction exponent : List Char} (hw : IsWhole whole) (hf : IsFraction fraction)
      (he : IsExponent exponent) : IsMagnitude (whole ++ fraction ++ exponent)

inductive IsNumber : List Char → Prop where
  | plain {ds : List Char} (h : IsMagnitude ds) : IsNumber ds
  | minus {ds : List Char} (h : IsMagnitude ds) : IsNumber ('-' :: ds)

/-! ## What ends a number -/

/-- A text that does not go on with the digits before it. -/
def StopsDigits (cs : List Char) : Prop := ∀ c ∈ cs.head?, c.isDigit = false

/-- A text that does not go on with the whole part before it. -/
def StopsWhole (cs : List Char) : Prop := ∀ c ∈ cs.head?, c.isDigit = false ∧ c ≠ '.'

/-- A text that does not go on with a number before it. -/
def Stops (cs : List Char) : Prop :=
  ∀ c ∈ cs.head?, c.isDigit = false ∧ c ≠ '.' ∧ c ≠ 'e' ∧ c ≠ 'E'

theorem Stops.nil : Stops [] := by
  intro c hc
  cases hc

theorem Stops.cons {c : Char} (h : c.isDigit = false ∧ c ≠ '.' ∧ c ≠ 'e' ∧ c ≠ 'E')
    (cs : List Char) : Stops (c :: cs) := by
  intro d hd
  cases hd
  exact h

theorem Stops.digits {cs : List Char} (h : Stops cs) : StopsDigits cs := fun c hc => (h c hc).1

theorem IsExponent.stopsWhole {ds cs : List Char} (h : IsExponent ds) (hcs : Stops cs) :
    StopsWhole (ds ++ cs) := by
  cases h with
  | none => exact fun c hc => ⟨(hcs c hc).1, (hcs c hc).2.1⟩
  | small _ | capital _ =>
      intro c hc
      cases hc
      decide

theorem IsFraction.stopsDigits {ds cs : List Char} (h : IsFraction ds) (hcs : StopsWhole cs) :
    StopsDigits (ds ++ cs) := by
  cases h with
  | none => exact fun c hc => (hcs c hc).1
  | point _ =>
      intro c hc
      cases hc
      decide

/-! ## Numbers are read -/

theorem IsDigits.eq_cons {ds : List Char} (h : IsDigits ds) :
    ∃ d ds', ds = d :: ds' ∧ d.isDigit = true := by
  obtain ⟨hne, hds⟩ := h
  cases ds with
  | nil => exact absurd rfl hne
  | cons d ds' => exact ⟨d, ds', rfl, hds d List.mem_cons_self⟩

theorem digits?_append {ds cs : List Char} (h : IsDigits ds) (hcs : StopsDigits cs) :
    digits? (ds ++ cs) = some (ds, cs) := by
  have htake : cs.takeWhile Char.isDigit = [] := by
    cases cs with
    | nil => rfl
    | cons c cs => simp [hcs c rfl]
  have hdrop : cs.dropWhile Char.isDigit = cs := by
    cases cs with
    | nil => rfl
    | cons c cs => simp [hcs c rfl]
  rw [digits?, List.takeWhile_append_of_pos h.2, List.dropWhile_append_of_pos h.2, htake, hdrop,
    List.append_nil]
  obtain ⟨d, ds', rfl, -⟩ := h.eq_cons
  rfl

theorem wholePart?_append {ds cs : List Char} (h : IsWhole ds) (hcs : StopsDigits cs) :
    wholePart? (ds ++ cs) = some (ds, cs) := by
  rcases h with rfl | ⟨hds, hzero⟩
  · rfl
  · have hread := digits?_append hds hcs
    obtain ⟨d, ds', rfl, -⟩ := hds.eq_cons
    rw [List.cons_append, wholePart?]
    · exact hread
    · intro cs' he
      cases he
      exact hzero rfl

theorem fraction?_append {ds cs : List Char} (h : IsFraction ds) (hcs : StopsWhole cs) :
    fraction? (ds ++ cs) = some (ds, cs) := by
  cases h with
  | point hds =>
      have hread := digits?_append hds (fun c hc => (hcs c hc).1)
      simp only [List.cons_append, fraction?, hread, Option.map_some]
  | none =>
      cases cs with
      | nil => rfl
      | cons c cs =>
          rw [List.nil_append, fraction?]
          intro cs' he
          cases he
          exact (hcs '.' rfl).2 rfl

theorem signedDigits?_append {ds cs : List Char} (h : IsSigned ds) (hcs : StopsDigits cs) :
    signedDigits? (ds ++ cs) = some (ds, cs) := by
  cases h with
  | plus hds | minus hds =>
      simp only [List.cons_append, signedDigits?, digits?_append hds hcs, Option.map_some]
  | none hds =>
      have hread := digits?_append hds hcs
      obtain ⟨d, ds', rfl, hd⟩ := hds.eq_cons
      rw [List.cons_append, signedDigits?]
      · exact hread
      all_goals
        intro cs' he
        cases he
        cases hd

theorem exponent?_append {ds cs : List Char} (h : IsExponent ds) (hcs : Stops cs) :
    exponent? (ds ++ cs) = some (ds, cs) := by
  cases h with
  | small hds | capital hds =>
      simp only [List.cons_append, exponent?, signedDigits?_append hds hcs.digits,
        Option.map_some]
  | none =>
      cases cs with
      | nil => rfl
      | cons c cs =>
          obtain ⟨-, -, he, hE⟩ := hcs c rfl
          rw [List.nil_append, exponent?]
          · intro cs' heq
            cases heq
            exact he rfl
          · intro cs' heq
            cases heq
            exact hE rfl

theorem magnitude?_append {ds cs : List Char} (h : IsMagnitude ds) (hcs : Stops cs) :
    magnitude? (ds ++ cs) = some (ds, cs) := by
  cases h with
  | @parts whole fraction exponent hw hf he =>
      have hexponent := he.stopsWhole hcs
      simp only [magnitude?, List.append_assoc, Option.bind_eq_bind, Option.bind_some,
        wholePart?_append hw (hf.stopsDigits hexponent), fraction?_append hf hexponent,
        exponent?_append he hcs]
      rfl

theorem IsMagnitude.eq_cons {ds : List Char} (h : IsMagnitude ds) :
    ∃ d ds', ds = d :: ds' ∧ d.isDigit = true := by
  cases h with
  | parts hw _ _ =>
      rcases hw with rfl | ⟨hds, -⟩
      · exact ⟨'0', _, rfl, rfl⟩
      · obtain ⟨d, ds', rfl, hd⟩ := hds.eq_cons
        exact ⟨d, _, rfl, hd⟩

/-- A number is read as far as it goes. -/
theorem number?_append {ds cs : List Char} (h : IsNumber ds) (hcs : Stops cs) :
    number? (ds ++ cs) = some (ds, cs) := by
  cases h with
  | minus hm => simp only [List.cons_append, number?, magnitude?_append hm hcs, Option.map_some]
  | plain hm =>
      have hread := magnitude?_append hm hcs
      obtain ⟨d, ds', rfl, hd⟩ := hm.eq_cons
      rw [List.cons_append, number?]
      · exact hread
      · intro cs' he
        cases he
        cases hd

/-! ## Nothing else is read as a number -/

theorem map_cons_eq_some {read : Option (List Char × List Char)} {c : Char} {cs rest : List Char}
    (h : (read.map fun (cs, rest) => (c :: cs, rest)) = some (cs, rest)) :
    ∃ cs', read = some (cs', rest) ∧ cs = c :: cs' := by
  obtain ⟨⟨cs', rest'⟩, hread, he⟩ := Option.map_eq_some_iff.mp h
  cases he
  exact ⟨cs', hread, rfl⟩

theorem digits?_eq_some {cs ds rest : List Char} (h : digits? cs = some (ds, rest)) :
    IsDigits ds ∧ cs = ds ++ rest := by
  rw [digits?] at h
  split at h
  · cases h
  · next htake =>
      cases h
      refine ⟨⟨htake, List.all_eq_true.mp List.all_takeWhile⟩, ?_⟩
      rw [List.takeWhile_append_dropWhile]

theorem wholePart?_eq_some {cs ds rest : List Char} (h : wholePart? cs = some (ds, rest)) :
    IsWhole ds ∧ cs = ds ++ rest := by
  unfold wholePart? at h
  split at h
  · cases h
    exact ⟨Or.inl rfl, rfl⟩
  · next hzero =>
      obtain ⟨hds, rfl⟩ := digits?_eq_some h
      refine ⟨Or.inr ⟨hds, ?_⟩, rfl⟩
      obtain ⟨d, ds', rfl, -⟩ := hds.eq_cons
      rintro he
      cases he
      exact hzero _ rfl

theorem fraction?_eq_some {cs ds rest : List Char} (h : fraction? cs = some (ds, rest)) :
    IsFraction ds ∧ cs = ds ++ rest := by
  unfold fraction? at h
  split at h
  · obtain ⟨ds', hread, rfl⟩ := map_cons_eq_some h
    obtain ⟨hds, rfl⟩ := digits?_eq_some hread
    exact ⟨.point hds, rfl⟩
  · cases h
    exact ⟨.none, rfl⟩

theorem signedDigits?_eq_some {cs ds rest : List Char} (h : signedDigits? cs = some (ds, rest)) :
    IsSigned ds ∧ cs = ds ++ rest := by
  unfold signedDigits? at h
  split at h
  · obtain ⟨ds', hread, rfl⟩ := map_cons_eq_some h
    obtain ⟨hds, rfl⟩ := digits?_eq_some hread
    exact ⟨.plus hds, rfl⟩
  · obtain ⟨ds', hread, rfl⟩ := map_cons_eq_some h
    obtain ⟨hds, rfl⟩ := digits?_eq_some hread
    exact ⟨.minus hds, rfl⟩
  · obtain ⟨hds, rfl⟩ := digits?_eq_some h
    exact ⟨.none hds, rfl⟩

theorem exponent?_eq_some {cs ds rest : List Char} (h : exponent? cs = some (ds, rest)) :
    IsExponent ds ∧ cs = ds ++ rest := by
  unfold exponent? at h
  split at h
  · obtain ⟨ds', hread, rfl⟩ := map_cons_eq_some h
    obtain ⟨hds, rfl⟩ := signedDigits?_eq_some hread
    exact ⟨.small hds, rfl⟩
  · obtain ⟨ds', hread, rfl⟩ := map_cons_eq_some h
    obtain ⟨hds, rfl⟩ := signedDigits?_eq_some hread
    exact ⟨.capital hds, rfl⟩
  · cases h
    exact ⟨.none, rfl⟩

theorem magnitude?_eq_some {cs ds rest : List Char} (h : magnitude? cs = some (ds, rest)) :
    IsMagnitude ds ∧ cs = ds ++ rest := by
  simp only [magnitude?, Option.bind_eq_bind, Option.bind_eq_some_iff] at h
  obtain ⟨⟨whole, cs₁⟩, hw, ⟨fraction, cs₂⟩, hf, ⟨exponent, cs₃⟩, he, h⟩ := h
  cases h
  obtain ⟨hwhole, rfl⟩ := wholePart?_eq_some hw
  obtain ⟨hfraction, rfl⟩ := fraction?_eq_some hf
  obtain ⟨hexponent, rfl⟩ := exponent?_eq_some he
  refine ⟨.parts hwhole hfraction hexponent, ?_⟩
  simp only [List.append_assoc]

theorem number?_eq_some {cs ds rest : List Char} (h : number? cs = some (ds, rest)) :
    IsNumber ds ∧ cs = ds ++ rest := by
  unfold number? at h
  split at h
  · obtain ⟨ds', hread, rfl⟩ := map_cons_eq_some h
    obtain ⟨hm, rfl⟩ := magnitude?_eq_some hread
    exact ⟨.minus hm, rfl⟩
  · obtain ⟨hm, rfl⟩ := magnitude?_eq_some h
    exact ⟨.plain hm, rfl⟩

/-! ## Natural numbers -/

theorem isDigits_toDigits (n : Nat) : IsDigits (Nat.toDigits 10 n) :=
  ⟨Nat.toDigits_ne_nil, fun _ hd => Nat.isDigit_of_mem_toDigits (by decide) (by decide) hd⟩

/-- No number but zero is written with a zero in front. -/
theorem head?_toDigits_ne_zero {n : Nat} (h : 0 < n) : (Nat.toDigits 10 n).head? ≠ some '0' := by
  induction n using Nat.strongRecOn with
  | ind n ih =>
      by_cases hn : n < 10
      · rw [Nat.toDigits_of_lt_base hn, List.head?_cons, Ne, Option.some.injEq,
          Nat.digitChar_eq_zero]
        omega
      · have hrest := ih (n / 10) (by omega) (by omega)
        rw [Nat.toDigits_of_base_le (by decide) (by omega), List.head?_append]
        obtain ⟨d, ds, hd, -⟩ := (isDigits_toDigits (n / 10)).eq_cons
        rw [hd] at hrest ⊢
        exact hrest

theorem isNumber_toDigits (n : Nat) : IsNumber (Nat.toDigits 10 n) := by
  have hw : IsWhole (Nat.toDigits 10 n) := by
    rcases Nat.eq_zero_or_pos n with rfl | hn
    · exact Or.inl (Nat.toDigits_zero 10)
    · exact Or.inr ⟨isDigits_toDigits n, head?_toDigits_ne_zero hn⟩
  have hm := IsMagnitude.parts hw .none .none
  rw [List.append_nil, List.append_nil] at hm
  exact .plain hm

/-- A number of digits alone has a whole part and nothing else. -/
theorem IsNumber.isWhole {ds : List Char} (h : IsNumber ds) (hds : ∀ d ∈ ds, d.isDigit = true) :
    IsWhole ds := by
  cases h with
  | minus _ => cases hds '-' List.mem_cons_self
  | plain hm =>
      cases hm with
      | @parts whole fraction exponent hw hf he =>
          simp only [List.forall_mem_append] at hds
          obtain ⟨⟨-, hdsf⟩, hdse⟩ := hds
          cases hf with
          | point _ => cases hdsf '.' List.mem_cons_self
          | none =>
              cases he with
              | small _ => cases hdse 'e' List.mem_cons_self
              | capital _ => cases hdse 'E' List.mem_cons_self
              | none => rwa [List.append_nil, List.append_nil]

theorem digit_lt {d : Char} (h : d.isDigit = true) : d.toNat - '0'.toNat < 10 := by
  obtain ⟨hlow, hhigh⟩ : '0'.toNat ≤ d.toNat ∧ d.toNat ≤ '9'.toNat := Char.isDigit_iff_toNat.mp h
  exact Nat.sub_lt_right_of_lt_add hlow (Nat.lt_succ_of_le hhigh)

theorem toDigits_digit {d : Char} (h : d.isDigit = true) :
    Nat.toDigits 10 (d.toNat - '0'.toNat) = [d] := by
  have hvalue : ∀ n, n < 10 → (Nat.digitChar n).toNat = n + '0'.toNat := by decide
  have hlow : '0'.toNat ≤ d.toNat := (Char.isDigit_iff_toNat.mp h).1
  rw [Nat.toDigits_of_lt_base (digit_lt h), List.cons.injEq]
  refine ⟨Char.toNat_inj.mp ?_, rfl⟩
  rw [hvalue _ (digit_lt h), Nat.sub_add_cancel hlow]

theorem toDigits_ofDigitChars {n : Nat} (hn : 0 < n) {ds : List Char}
    (hds : ∀ d ∈ ds, d.isDigit = true) :
    Nat.toDigits 10 (Nat.ofDigitChars 10 ds n) = Nat.toDigits 10 n ++ ds := by
  induction ds generalizing n with
  | nil => exact (List.append_nil _).symm
  | cons d ds ih =>
      obtain ⟨hd, hds⟩ := List.forall_mem_cons.mp hds
      rw [Nat.ofDigitChars_cons, ih (by omega) hds,
        ← Nat.toDigits_append_toDigits (by decide) hn (digit_lt hd), toDigits_digit hd,
        List.append_assoc]
      rfl

/-- Digits that start with no zero are the digits of the number they write. -/
theorem IsWhole.toDigits_eq {ds : List Char} (h : IsWhole ds) :
    Nat.toDigits 10 (Nat.ofDigitChars 10 ds 0) = ds := by
  rcases h with rfl | ⟨hds, hzero⟩
  · rfl
  · obtain ⟨d, ds', rfl, hd⟩ := hds.eq_cons
    have hpos : 0 < d.toNat - '0'.toNat := by
      refine Nat.pos_of_ne_zero fun hvalue => hzero ?_
      have hdigit := toDigits_digit hd
      rw [hvalue, Nat.toDigits_zero] at hdigit
      rw [List.head?_cons, List.head_eq_of_cons_eq hdigit]
    rw [Nat.ofDigitChars_cons, Nat.mul_zero, Nat.zero_add,
      toDigits_ofDigitChars hpos (List.forall_mem_cons.mp hds.2).2, toDigits_digit hd]
    rfl

/-! ## The ways to write a string -/

/-- The ways to write a character of a string. -/
inductive Spells : List Char → Char → Prop where
  | plain {c : Char} (hquote : c ≠ '"') (hslash : c ≠ '\\') (hprint : ¬ c.toNat < 0x20) :
      Spells [c] c
  | short {e c : Char} (h : shortEscape? e = some c) : Spells ['\\', e] c
  | unit {a b c d : Char} {n : Nat} (h : unit? a b c d = some n) (hn : n < 0xD800 ∨ 0xDFFF < n) :
      Spells ['\\', 'u', a, b, c, d] (Char.ofNat n)
  /-- A character outside the first plane, as the two halves of a surrogate pair. -/
  | pair {a b c d a' b' c' d' : Char} {hi lo : Nat} (hhi : unit? a b c d = some hi)
      (hlo : unit? a' b' c' d' = some lo) (hhigh : 0xD800 ≤ hi ∧ hi < 0xDC00)
      (hlow : 0xDC00 ≤ lo ∧ lo ≤ 0xDFFF) :
      Spells ['\\', 'u', a, b, c, d, '\\', 'u', a', b', c', d']
        (Char.ofNat (0x10000 + (hi - 0xD800) * 0x400 + (lo - 0xDC00)))

/-- The ways to write a list of characters between two quotes. -/
inductive Spelling : List Char → List Char → Prop where
  | nil : Spelling [] []
  | cons {text : List Char} {c : Char} {texts s : List Char} (hc : Spells text c)
      (hs : Spelling texts s) : Spelling (text ++ texts) (c :: s)

theorem stringBody?_spells {text : List Char} {c : Char} (h : Spells text c) (cs : List Char) :
    stringBody? (text ++ cs) = (stringBody? cs).map fun (s, rest) => (c :: s, rest) := by
  cases h with
  | plain hquote hslash hprint =>
      rw [List.cons_append, List.nil_append, stringBody?]
      · exact if_neg (not_or.mpr ⟨hslash, hprint⟩)
      · exact hquote
      · intro _ _ _ _ _ he _
        exact hslash he
      · intro _ _ he _
        exact hslash he
  | short he =>
      simp only [List.cons_append, List.nil_append]
      rw [stringBody?]
      · simp only [he]
      · intro _ _ _ _ _ hu _
        rw [hu] at he
        cases he
  | unit hn hplane =>
      simp only [List.cons_append, List.nil_append]
      rw [stringBody?]
      simp only [hn, if_pos hplane]
  | pair hhi hlo hhigh hlow =>
      simp only [List.cons_append, List.nil_append]
      rw [stringBody?]
      simp only [hhi, hlo]
      rw [if_neg (by omega), if_pos hhigh.2, if_pos hlow]

theorem stringBody?_spelling {text s : List Char} (h : Spelling text s) (rest : List Char) :
    stringBody? (text ++ '"' :: rest) = some (s, rest) := by
  induction h with
  | nil => rw [List.nil_append, stringBody?]
  | cons hc hs ih => rw [List.append_assoc, stringBody?_spells hc, ih, Option.map_some]

theorem Spells.extend {text cs s rest : List Char} {c : Char} (hc : Spells text c)
    (h : ((stringBody? cs).map fun (s, rest) => (c :: s, rest)) = some (s, rest))
    (hcs : ∀ {s rest}, stringBody? cs = some (s, rest) →
      ∃ texts, Spelling texts s ∧ cs = texts ++ '"' :: rest) :
    ∃ texts, Spelling texts s ∧ text ++ cs = texts ++ '"' :: rest := by
  obtain ⟨s', hread, rfl⟩ := map_cons_eq_some h
  obtain ⟨texts, hs, rfl⟩ := hcs hread
  refine ⟨text ++ texts, .cons hc hs, ?_⟩
  rw [List.append_assoc]

/-- Nothing else is read as a string. -/
theorem stringBody?_eq_some {cs s rest : List Char} (h : stringBody? cs = some (s, rest)) :
    ∃ text, Spelling text s ∧ cs = text ++ '"' :: rest := by
  fun_induction stringBody? cs generalizing s rest with
  | case2 cs =>
      cases h
      exact ⟨[], .nil, rfl⟩
  | case4 a b c d cs n hn hplane ih => exact (Spells.unit hn hplane).extend h ih
  | case6 a b c d hi hhi hplane hhigh a' b' c' d' cs lo hlo hlow =>
      rename_i ih
      exact (Spells.pair hhi hlo (by omega) hlow).extend h ih
  | case11 e cs hu c he ih => exact (Spells.short he).extend h ih
  | case13 c cs hquote _ _ hplain ih =>
      obtain ⟨hslash, hprint⟩ := not_or.mp hplain
      exact (Spells.plain hquote hslash hprint).extend h ih
  -- In all other cases nothing is read.
  | _ => cases h

/-! ## The way strings are printed -/

theorem hexValue?_digitChar {n : Nat} (h : n < 16) : hexValue? (Nat.digitChar n) = some n := by
  revert n
  decide

/-- A character is written in one of the ways to write it. -/
theorem spells_escape (c : Char) : Spells (escape c) c := by
  unfold escape
  split
  case h_6 hquote hslash _ _ _ =>
    split
    next hlt =>
      have hhi := hexValue?_digitChar (n := c.toNat / 16) (by omega)
      have hlo := hexValue?_digitChar (n := c.toNat % 16) (by omega)
      have hzero : hexValue? '0' = some 0 := by decide
      have hunit : unit? '0' '0' (Nat.digitChar (c.toNat / 16)) (Nat.digitChar (c.toNat % 16))
          = some c.toNat := by
        simp only [unit?, hhi, hlo, hzero, Option.bind_eq_bind, Option.bind_some, Option.pure_def,
          Option.some.injEq]
        omega
      have hspells := Spells.unit hunit (Or.inl (by omega))
      rwa [Char.ofNat_toNat] at hspells
    next hprint => exact .plain hquote hslash hprint
  all_goals exact .short rfl

theorem spelling_flatMap_escape (s : List Char) : Spelling (s.flatMap escape) s := by
  induction s with
  | nil => exact .nil
  | cons c s ih => exact .cons (spells_escape c) ih

end ChipEight.Json
