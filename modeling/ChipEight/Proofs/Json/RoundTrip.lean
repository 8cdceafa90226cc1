import ChipEight.Json.Value
import ChipEight.Proofs.Json.Scanning

/-!
# Values and their texts

A text is read as a value exactly if the tokens of the value are laid out in it
(`Value.read?_eq_some_iff`): with any blanks between the tokens, and with any escapes
in the strings.  So a value is read back from the text it is printed as
(`Value.read?_render`).

The proof goes by way of the tokens.  Those of a value are spaced, so scanning gives
them back, and the reader takes exactly them off the front of any list
(`take?_tokens`) and nothing but the tokens of a value (`take?_eq_some`).  Values nest
through lists of elements and lists of members, so each of these facts is proved for
the three kinds at once.
-/

namespace ChipEight.Json

namespace Value

/-- The text writes the value, with any blanks and escapes. -/
def WrittenAs (v : Value) (text : String) : Prop := Token.Laid v.tokens text.toList

/-- All numbers of a value are numbers of the grammar. -/
def Numeric (v : Value) : Prop := ∀ ds, .number ds ∈ v.tokens → IsNumber ds

/-! ## The numbers of a value -/

theorem number_mem_elementTokens {ds : List Char} {vs : List Value} :
    .number ds ∈ elementTokens vs ↔ ∃ v ∈ vs, .number ds ∈ v.tokens := by
  induction vs with
  | nil => simp [elementTokens]
  | cons v vs ih => simp [elementTokens, ih]

theorem number_mem_memberTokens {ds : List Char} {ms : List (String × Value)} :
    .number ds ∈ memberTokens ms ↔ ∃ v ∈ ms.map Prod.snd, .number ds ∈ v.tokens := by
  induction ms with
  | nil => simp [memberTokens]
  | cons m ms ih => simp [memberTokens, ih, -List.mem_map]

theorem numeric_null : Value.null.Numeric := by simp [Numeric, tokens]

theorem numeric_bool (b : Bool) : (Value.bool b).Numeric := by simp [Numeric, tokens]

theorem numeric_number {ds : List Char} : (Value.number ds).Numeric ↔ IsNumber ds := by
  simp [Numeric, tokens]

theorem numeric_ofNat (n : Nat) : (ofNat n).Numeric := numeric_number.mpr (isNumber_toDigits n)

/-- A value is numeric if the values in it are, and all its numbers are in them. -/
theorem numeric_iff {v : Value} {vs : List Value}
    (h : ∀ ds, .number ds ∈ v.tokens ↔ ∃ w ∈ vs, .number ds ∈ w.tokens) :
    v.Numeric ↔ ∀ w ∈ vs, w.Numeric := by
  simp only [Numeric, h]
  constructor
  · intro hv w hw ds hds
    exact hv ds ⟨w, hw, hds⟩
  · rintro hvs ds ⟨w, hw, hds⟩
    exact hvs w hw ds hds

theorem numeric_array {vs : List Value} : (Value.array vs).Numeric ↔ ∀ v ∈ vs, v.Numeric := by
  refine numeric_iff fun ds => ?_
  cases vs with
  | nil => simp [tokens]
  | cons v vs => simp [tokens, number_mem_elementTokens]

theorem numeric_object {ms : List (String × Value)} :
    (Value.object ms).Numeric ↔ ∀ m ∈ ms, m.2.Numeric := by
  have hvalues : (Value.object ms).Numeric ↔ ∀ v ∈ ms.map Prod.snd, v.Numeric := by
    refine numeric_iff fun ds => ?_
    cases ms with
    | nil => simp [tokens]
    | cons m ms => simp [tokens, number_mem_memberTokens, -List.mem_map]
  rw [hvalues, List.forall_mem_map]

theorem WrittenAs.numeric {v : Value} {text : String} (h : v.WrittenAs text) : v.Numeric :=
  fun _ hds => h.isNumber hds

/-! ## The tokens of a value are spaced -/

theorem spaced_cons {t : Token} {ts : List Token} (ht : t.isNumber = false)
    (hts : Token.Spaced ts) : Token.Spaced (t :: ts) := by
  refine ⟨fun hnum => ?_, hts⟩
  rw [ht] at hnum
  cases hnum

theorem elementTokens_head : ∀ (vs : List Value) (ts : List Token),
    ∀ t ∈ (elementTokens vs ++ ts).head?, t.isNumber = false
  | [], _, _, ht => by cases ht; rfl
  | _ :: _, _, _, ht => by cases ht; rfl

theorem memberTokens_head : ∀ (ms : List (String × Value)) (ts : List Token),
    ∀ t ∈ (memberTokens ms ++ ts).head?, t.isNumber = false
  | [], _, _, ht => by cases ht; rfl
  | _ :: _, _, _, ht => by cases ht; rfl

mutual

theorem spaced_append : ∀ (v : Value) {ts : List Token}, Token.Spaced ts →
    (∀ t ∈ ts.head?, t.isNumber = false) → Token.Spaced (v.tokens ++ ts)
  | .null, _, hts, _ => spaced_cons rfl hts
  | .bool _, _, hts, _ => spaced_cons rfl hts
  | .string _, _, hts, _ => spaced_cons rfl hts
  | .number _, _, hts, hhead => ⟨fun _ => hhead, hts⟩
  | .array [], _, hts, _ => spaced_cons rfl (spaced_cons rfl hts)
  | .array (v :: vs), ts, hts, _ => by
      have htail := spaced_elementTokens vs hts
      simp only [tokens, List.cons_append, List.append_assoc]
      exact spaced_cons rfl (spaced_append v htail (elementTokens_head vs ts))
  | .object [], _, hts, _ => spaced_cons rfl (spaced_cons rfl hts)
  | .object ((name, v) :: ms), ts, hts, _ => by
      have htail := spaced_memberTokens ms hts
      simp only [tokens, List.cons_append, List.append_assoc]
      exact spaced_cons rfl (spaced_cons rfl (spaced_cons rfl
        (spaced_append v htail (memberTokens_head ms ts))))

theorem spaced_elementTokens : ∀ (vs : List Value) {ts : List Token}, Token.Spaced ts →
    Token.Spaced (elementTokens vs ++ ts)
  | [], _, hts => spaced_cons rfl hts
  | v :: vs, ts, hts => by
      have htail := spaced_elementTokens vs hts
      simp only [elementTokens, List.cons_append, List.append_assoc]
      exact spaced_cons rfl (spaced_append v htail (elementTokens_head vs ts))

theorem spaced_memberTokens : ∀ (ms : List (String × Value)) {ts : List Token},
    Token.Spaced ts → Token.Spaced (memberTokens ms ++ ts)
  | [], _, hts => spaced_cons rfl hts
  | (name, v) :: ms, ts, hts => by
      have htail := spaced_memberTokens ms hts
      simp only [memberTokens, List.cons_append, List.append_assoc]
      exact spaced_cons rfl (spaced_cons rfl (spaced_cons rfl
        (spaced_append v htail (memberTokens_head ms ts))))

end

theorem spaced_tokens (v : Value) : Token.Spaced v.tokens := by
  have h : Token.Spaced (v.tokens ++ []) := v.spaced_append trivial nofun
  rwa [List.append_nil] at h

/-! ## Reading the tokens of a value

The reader's fuel is counted in tokens, so each step needs to know that the value
it takes has at least one. -/

/-- No value starts with the end of an array. -/
theorem tokens_ne_closeArray (v : Value) (ts rest : List Token) :
    v.tokens ++ ts ≠ .closeArray :: rest := by
  match v with
  | .null | .bool _ | .number _ | .string _ => simp [tokens]
  | .array [] | .array (_ :: _) => simp [tokens]
  | .object [] | .object ((_, _) :: _) => simp [tokens]

theorem length_tokens_pos (v : Value) : 0 < v.tokens.length := by
  match v with
  | .null | .bool _ | .number _ | .string _ => simp [tokens]
  | .array [] | .array (_ :: _) => simp [tokens]
  | .object [] | .object ((_, _) :: _) => simp [tokens]

mutual

theorem take?_tokens : ∀ (v : Value) (n : Nat) (rest : List Token), v.tokens.length ≤ n →
    take? n (v.tokens ++ rest) = some (v, rest)
  | v, 0, _, h => absurd h (Nat.not_le.mpr (length_tokens_pos v))
  | .null, n + 1, _, _ => rfl
  | .bool _, n + 1, _, _ => rfl
  | .number _, n + 1, _, _ => rfl
  | .string _, n + 1, _, _ => rfl
  | .array [], n + 1, _, _ => rfl
  | .array (v :: vs), n + 1, rest, h => by
      simp only [tokens, List.length_cons, List.length_append] at h
      have hvs := takeElements?_tokens v vs n rest (by omega)
      simp only [tokens, List.cons_append, List.append_assoc]
      rw [take?]
      · rw [hvs, Option.map_some]
      · exact fun ts he => tokens_ne_closeArray _ _ _ he
  | .object [], n + 1, _, _ => rfl
  | .object ((name, v) :: ms), n + 1, rest, h => by
      simp only [tokens, List.length_cons, List.length_append] at h
      have hms := takeMembers?_tokens name v ms n rest (by omega)
      simp only [tokens, List.cons_append, List.append_assoc, take?, hms, Option.map_some]

theorem takeElements?_tokens : ∀ (v : Value) (vs : List Value) (n : Nat) (rest : List Token),
    v.tokens.length + (elementTokens vs).length ≤ n →
    takeElements? n (v.tokens ++ (elementTokens vs ++ rest)) = some (v :: vs, rest)
  | v, _, 0, _, h => absurd h (by have := length_tokens_pos v; omega)
  | v, [], n + 1, rest, h => by
      have hv := take?_tokens v n (elementTokens [] ++ rest) (by simp [elementTokens] at h; omega)
      simp only [takeElements?, hv]
      rfl
  | v, w :: ws, n + 1, rest, h => by
      simp only [elementTokens, List.length_cons, List.length_append] at h
      have hpos := length_tokens_pos v
      have hv := take?_tokens v n (elementTokens (w :: ws) ++ rest) (by omega)
      have hws := takeElements?_tokens w ws n rest (by omega)
      simp only [takeElements?, hv]
      simp only [elementTokens, List.cons_append, List.append_assoc, hws, Option.map_some]

theorem takeMembers?_tokens : ∀ (name : String) (v : Value) (ms : List (String × Value)) (n : Nat)
    (rest : List Token), v.tokens.length + (memberTokens ms).length ≤ n →
    takeMembers? n (.string name :: .colon :: (v.tokens ++ (memberTokens ms ++ rest))) =
      some ((name, v) :: ms, rest)
  | _, v, _, 0, _, h => absurd h (by have := length_tokens_pos v; omega)
  | name, v, [], n + 1, rest, h => by
      have hv := take?_tokens v n (memberTokens [] ++ rest) (by simp [memberTokens] at h; omega)
      simp only [takeMembers?, hv]
      rfl
  | name, v, (name', w) :: ms, n + 1, rest, h => by
      simp only [memberTokens, List.length_cons, List.length_append] at h
      have hpos := length_tokens_pos v
      have hv := take?_tokens v n (memberTokens ((name', w) :: ms) ++ rest) (by omega)
      have hms := takeMembers?_tokens name' w ms n rest (by omega)
      simp only [takeMembers?, hv]
      simp only [memberTokens, List.cons_append, List.append_assoc, hms, Option.map_some]

end

theorem ofTokens?_tokens (v : Value) : ofTokens? v.tokens = some v := by
  have h := take?_tokens v v.tokens.length [] (Nat.le_refl _)
  rw [List.append_nil] at h
  rw [ofTokens?, h]

/-! ## Only the tokens of a value are read -/

mutual

theorem take?_eq_some : ∀ {n : Nat} {ts : List Token} {v : Value} {rest : List Token},
    take? n ts = some (v, rest) → ts = v.tokens ++ rest
  | 0, _, _, _, h => nomatch h
  | n + 1, ts, v, rest, h => by
      unfold take? at h
      split at h
      case h_6 =>
        obtain ⟨⟨vs, rest'⟩, hread, he⟩ := Option.map_eq_some_iff.mp h
        cases he
        obtain ⟨w, ws, rfl, rfl⟩ := takeElements?_eq_some hread
        simp only [tokens, List.cons_append, List.append_assoc]
      case h_8 =>
        obtain ⟨⟨ms, rest'⟩, hread, he⟩ := Option.map_eq_some_iff.mp h
        cases he
        obtain ⟨name, w, ms', rfl, rfl⟩ := takeMembers?_eq_some hread
        simp only [tokens, List.cons_append, List.append_assoc]
      all_goals
        cases h
        try rfl

theorem takeElements?_eq_some : ∀ {n : Nat} {ts : List Token} {vs : List Value}
    {rest : List Token}, takeElements? n ts = some (vs, rest) →
      ∃ w ws, vs = w :: ws ∧ ts = w.tokens ++ (elementTokens ws ++ rest)
  | 0, _, _, _, h => nomatch h
  | n + 1, ts, vs, rest, h => by
      unfold takeElements? at h
      split at h
      next w ts' hw =>
        obtain ⟨⟨ws, rest'⟩, hread, he⟩ := Option.map_eq_some_iff.mp h
        cases he
        obtain ⟨x, xs, rfl, rfl⟩ := takeElements?_eq_some hread
        refine ⟨w, x :: xs, rfl, ?_⟩
        rw [take?_eq_some hw]
        simp only [elementTokens, List.cons_append, List.append_assoc]
      next w ts' hw =>
        cases h
        exact ⟨w, [], rfl, take?_eq_some hw⟩
      next => cases h

theorem takeMembers?_eq_some : ∀ {n : Nat} {ts : List Token} {ms : List (String × Value)}
    {rest : List Token}, takeMembers? n ts = some (ms, rest) →
      ∃ name w ms', ms = (name, w) :: ms' ∧
        ts = .string name :: .colon :: (w.tokens ++ (memberTokens ms' ++ rest))
  | 0, _, _, _, h => nomatch h
  | n + 1, ts, ms, rest, h => by
      unfold takeMembers? at h
      split at h
      next name ts' =>
        split at h
        next w ts'' hw =>
          obtain ⟨⟨ms', rest'⟩, hread, he⟩ := Option.map_eq_some_iff.mp h
          cases he
          obtain ⟨name', x, xs, rfl, rfl⟩ := takeMembers?_eq_some hread
          refine ⟨name, w, (name', x) :: xs, rfl, ?_⟩
          rw [take?_eq_some hw]
          simp only [memberTokens, List.cons_append, List.append_assoc]
        next w ts'' hw =>
          cases h
          refine ⟨name, w, [], rfl, ?_⟩
          rw [take?_eq_some hw]
          rfl
        next => cases h
      next => cases h

end

theorem ofTokens?_eq_some {ts : List Token} {v : Value} (h : ofTokens? ts = some v) :
    ts = v.tokens := by
  rw [ofTokens?] at h
  split at h
  next w hw =>
    cases h
    rw [take?_eq_some hw, List.append_nil]
  next => cases h

/-! ## Whole texts -/

/-- A text is read as the value it writes, and as no other. -/
theorem read?_eq_some_iff {text : String} {v : Value} :
    read? text = some v ↔ v.WrittenAs text := by
  constructor
  · intro h
    obtain ⟨ts, hscan, hts⟩ := Option.bind_eq_some_iff.mp h
    have hlaid := Token.laid_of_scan hscan
    rwa [ofTokens?_eq_some hts] at hlaid
  · intro h
    rw [read?, Token.scan_of_laid h v.spaced_tokens, Option.bind_some, ofTokens?_tokens]

theorem writtenAs_render {v : Value} (h : v.Numeric) : v.WrittenAs v.render := by
  rw [WrittenAs, render, String.toList_ofList]
  exact Token.laid_flatMap_text h

/-- A value is read back from its text. -/
theorem read?_render {v : Value} (h : v.Numeric) : read? v.render = some v :=
  read?_eq_some_iff.mpr (writtenAs_render h)

end Value

end ChipEight.Json
