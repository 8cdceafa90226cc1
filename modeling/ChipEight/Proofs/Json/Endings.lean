import ChipEight.Proofs.Json.RoundTrip

/-!
# Where a value ends

An array and an object tell their own end: no text that writes one goes on to a text
that writes another value, and nothing but blanks can stand behind it
(`Value.writtenAs_append_iff`).  A number does not, since more digits may follow it.

Scanning gives the tokens of the value and then those of the rest, because its last
token is no number.  Reading the tokens of a value takes no more and no fewer than
these, so if all of them together are the tokens of a value the rest has none.
-/

namespace ChipEight.Json

namespace Token

variable {ts : List Token} {cs : List Char}

/-! ## Blanks -/

theorem laid_nil_iff : Laid [] cs ↔ ∀ c ∈ cs, isBlank c = true := by
  constructor
  · intro h
    generalize he : ([] : List Token) = ts at h
    induction h with
    | nil => exact List.forall_mem_nil _
    | blank hc _ ih => exact List.forall_mem_cons.mpr ⟨hc, ih he⟩
    | token _ _ _ => cases he
  · intro h
    induction cs with
    | nil => exact .nil
    | cons c cs ih =>
        obtain ⟨hc, hcs⟩ := List.forall_mem_cons.mp h
        exact .blank hc (ih hcs)

theorem Laid.append_blanks (h : Laid ts cs) {rest : List Char}
    (hrest : ∀ c ∈ rest, isBlank c = true) : Laid ts (cs ++ rest) := by
  induction h with
  | nil => exact laid_nil_iff.mpr hrest
  | blank hc _ ih => exact .blank hc ih
  | token ht _ ih =>
      rw [List.append_assoc]
      exact .token ht ih

/-- The tokens of a longer text start with those of a text whose last token is no
number. -/
theorem Laid.tokens_of_append {ws : List Token} {rest : List Char} (h : Laid ts cs)
    (hts : Spaced ts) (hend : ∀ t ∈ ts.getLast?, t.isNumber = false)
    (hscan : scan (cs ++ rest) = some ws) : ∃ us, ws = ts ++ us ∧ Laid us rest := by
  have hstops : ∀ t ∈ ts.getLast?, t.isNumber = true → Stops rest := by
    intro t ht hnumber
    rw [hend t ht] at hnumber
    cases hnumber
  obtain ⟨k, -, hk⟩ := scanUpTo_append h hts hstops _ (Nat.le_refl _)
  rw [scan, hk] at hscan
  obtain ⟨us, hus, rfl⟩ := Option.map_eq_some_iff.mp hscan
  exact ⟨us, rfl, laid_of_scanUpTo hus⟩

end Token

namespace Value

variable {v w : Value}

/-! ## The tokens of a value -/

/-- No value's tokens go on to those of another. -/
theorem tokens_append_inj {ts us : List Token} (h : v.tokens ++ ts = w.tokens ++ us) :
    v = w ∧ ts = us := by
  have hv := take?_tokens v (v.tokens.length + w.tokens.length) ts (Nat.le_add_right _ _)
  have hw := take?_tokens w (v.tokens.length + w.tokens.length) us (Nat.le_add_left _ _)
  rw [h, hw] at hv
  cases hv
  exact ⟨rfl, rfl⟩

/-- True for the values that are written between brackets. -/
def isBracketed : Value → Bool
  | .array _ | .object _ => true
  | _ => false

theorem getLast?_elementTokens (vs : List Value) :
    (elementTokens vs).getLast? = some .closeArray := by
  induction vs with
  | nil => rfl
  | cons v vs ih => rw [elementTokens, List.getLast?_append, ih, Option.some_or]

theorem getLast?_memberTokens (ms : List (String × Value)) :
    (memberTokens ms).getLast? = some .closeObject := by
  induction ms with
  | nil => rfl
  | cons m ms ih =>
      obtain ⟨name, v⟩ := m
      rw [memberTokens, List.getLast?_append, ih, Option.some_or]

theorem getLast?_tokens_array (vs : List Value) :
    (Value.array vs).tokens.getLast? = some .closeArray := by
  cases vs with
  | nil => rfl
  | cons v vs => rw [tokens, List.getLast?_append, getLast?_elementTokens, Option.some_or]

theorem getLast?_tokens_object (ms : List (String × Value)) :
    (Value.object ms).tokens.getLast? = some .closeObject := by
  cases ms with
  | nil => rfl
  | cons m ms =>
      obtain ⟨name, v⟩ := m
      rw [tokens, List.getLast?_append, getLast?_memberTokens, Option.some_or]

theorem isNumber_getLast?_tokens (h : v.isBracketed = true) :
    ∀ t ∈ v.tokens.getLast?, t.isNumber = false := by
  intro t ht
  cases v with
  | array vs =>
      rw [getLast?_tokens_array] at ht
      cases ht
      rfl
  | object ms =>
      rw [getLast?_tokens_object] at ht
      cases ht
      rfl
  | _ => cases h

/-! ## Texts -/

/-- Behind a value between brackets there can only be blanks. -/
theorem writtenAs_append_iff {text rest : String} (hv : v.WrittenAs text)
    (hb : v.isBracketed = true) :
    w.WrittenAs (text ++ rest) ↔ w = v ∧ ∀ c ∈ rest.toList, isBlank c = true := by
  rw [WrittenAs, String.toList_append]
  constructor
  · intro hw
    have hscan := Token.scan_of_laid hw w.spaced_tokens
    obtain ⟨us, hus, hrest⟩ :=
      hv.tokens_of_append v.spaced_tokens (isNumber_getLast?_tokens hb) hscan
    obtain ⟨he, hnil⟩ := tokens_append_inj ((List.append_nil _).trans hus)
    rw [← hnil] at hrest
    exact ⟨he, Token.laid_nil_iff.mp hrest⟩
  · rintro ⟨rfl, hrest⟩
    exact hv.append_blanks hrest

/-- The text of an object ends with its bracket. -/
theorem getLast?_render_object (ms : List (String × Value)) :
    (Value.object ms).render.toList.getLast? = some '\x7d' := by
  obtain ⟨ts, hts⟩ := List.getLast?_eq_some_iff.mp (getLast?_tokens_object ms)
  rw [render, String.toList_ofList, hts, List.flatMap_append, List.getLast?_append]
  rfl

end Value

end ChipEight.Json
