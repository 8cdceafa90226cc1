import ChipEight.Proofs.Json.Lexemes

/-!
# Scanning

`Token.Laid` says that a text is a list of tokens, each written in one of the ways to
write it and with any blanks around it.  What is scanned from a text is laid out in it
(`Token.laid_of_scan`), and a text in which tokens are laid out is scanned into them
(`Token.scan_of_laid`).  For the second, two numbers must not be neighbours: all other
tokens tell their own end, but the digits of two numbers would run together.
-/

namespace ChipEight.Json

namespace Token

/-! ## The ways to write a token -/

/-- True for a number. -/
def isNumber : Token → Bool
  | .number _ => true
  | _ => false

/-- True for the tokens that can be written in one way only. -/
def isMark : Token → Bool
  | .number _ | .string _ => false
  | _ => true

/-- The ways to write a token. -/
inductive Writes : List Char → Token → Prop where
  | mark {t : Token} (h : t.isMark = true) : Writes t.text t
  | number {ds : List Char} (h : IsNumber ds) : Writes ds (.number ds)
  | string {text : List Char} {s : String} (h : Spelling text s.toList) :
      Writes ('"' :: text ++ ['"']) (.string s)

/-- The tokens of a text, with blanks around them. -/
inductive Laid : List Token → List Char → Prop where
  | nil : Laid [] []
  | blank {ts : List Token} {c : Char} {cs : List Char} (hc : isBlank c = true) (h : Laid ts cs) :
      Laid ts (c :: cs)
  | token {t : Token} {ts : List Token} {text cs : List Char} (ht : Writes text t)
      (h : Laid ts cs) : Laid (t :: ts) (text ++ cs)

/-- No two numbers are neighbours. -/
def Spaced : List Token → Prop
  | [] => True
  | t :: ts => (t.isNumber = true → ∀ next ∈ ts.head?, next.isNumber = false) ∧ Spaced ts

/-! ## What is written is scanned -/

variable {t : Token} {ts : List Token} {text cs : List Char}

/-- A number starts with a minus sign or a digit. -/
theorem eq_cons_of_isNumber {ds : List Char} (h : IsNumber ds) :
    ∃ c cs, ds = c :: cs ∧ (c = '-' ∨ c.isDigit = true) := by
  cases h with
  | minus _ => exact ⟨'-', _, rfl, Or.inl rfl⟩
  | plain hm =>
      obtain ⟨d, ds', rfl, hd⟩ := hm.eq_cons
      exact ⟨d, ds', rfl, Or.inr hd⟩

/-- A written token starts with no blank, and only a number starts like one. -/
theorem Writes.eq_cons (h : Writes text t) :
    ∃ c cs, text = c :: cs ∧ isBlank c = false ∧
      (t.isNumber = false → c.isDigit = false ∧ c ≠ '.' ∧ c ≠ 'e' ∧ c ≠ 'E') := by
  cases h with
  | number hds =>
      obtain ⟨c, cs, rfl, hc⟩ := eq_cons_of_isNumber hds
      refine ⟨c, cs, rfl, ?_, nofun⟩
      cases hb : isBlank c with
      | false => rfl
      | true =>
          simp only [isBlank, Bool.or_eq_true, beq_iff_eq] at hb
          rcases hb with ((rfl | rfl) | rfl) | rfl <;> rcases hc with hc | hc <;> cases hc
  | string _ => exact ⟨'"', _, rfl, by decide, fun _ => by decide⟩
  | mark hm =>
      cases t with
      | number _ | string _ => cases hm
      | bool b => cases b <;> exact ⟨_, _, rfl, by decide, fun _ => by decide⟩
      | _ => exact ⟨_, _, rfl, by decide, fun _ => by decide⟩

theorem first?_number {c : Char} (hc : c = '-' ∨ c.isDigit = true) (cs : List Char) :
    first? (c :: cs) = (number? (c :: cs)).map fun (ds, rest) => (.number ds, rest) := by
  unfold first?
  split
  all_goals first | rfl | (next he => cases he; rcases hc with hc | hc <;> cases hc)

/-- A token is read from each of the ways to write it. -/
theorem first?_append (h : Writes text t) (hcs : t.isNumber = true → Stops cs) :
    first? (text ++ cs) = some (t, cs) := by
  cases h with
  | number hds =>
      have hread := number?_append hds (hcs rfl)
      obtain ⟨c, ds, rfl, hc⟩ := eq_cons_of_isNumber hds
      rw [List.cons_append, first?_number hc]
      rw [List.cons_append] at hread
      rw [hread, Option.map_some]
  | string hs =>
      simp only [List.cons_append, List.append_assoc, List.nil_append, first?,
        stringBody?_spelling hs, Option.map_some, String.ofList_toList]
  | mark hm =>
      cases t with
      | number _ | string _ => cases hm
      | bool b => cases b <;> rfl
      | _ => rfl

/-- A text in which tokens are laid out does not go on with a number before it, unless
it is empty and what follows does. -/
theorem Laid.stops_append (h : Laid ts cs) (hts : ∀ t ∈ ts.head?, t.isNumber = false)
    {rest : List Char} (hrest : ts = [] → Stops rest) : Stops (cs ++ rest) := by
  cases h with
  | nil => exact hrest rfl
  | blank hc _ =>
      apply Stops.cons
      simp only [isBlank, Bool.or_eq_true, beq_iff_eq] at hc
      rcases hc with ((rfl | rfl) | rfl) | rfl <;> decide
  | token ht _ =>
      obtain ⟨c, cs, rfl, -, hc⟩ := ht.eq_cons
      exact Stops.cons (hc (hts _ rfl)) _

/-- Tokens that are laid out in front of a text are scanned off it, if the text does not
go on with the last of them.  The fuel that is left is enough for the text. -/
theorem scanUpTo_append (h : Laid ts cs) (hts : Spaced ts) {rest : List Char}
    (hend : ∀ t ∈ ts.getLast?, t.isNumber = true → Stops rest) :
    ∀ n, (cs ++ rest).length ≤ n → ∃ k, rest.length ≤ k ∧
      scanUpTo n (cs ++ rest) = (scanUpTo k rest).map (ts ++ ·) := by
  induction h with
  | nil =>
      intro n hn
      refine ⟨n, hn, ?_⟩
      rw [List.nil_append]
      exact Option.map_id'.symm
  | @blank ts c cs hc h ih =>
      intro n hn
      cases n with
      | zero => cases hn
      | succ n =>
          obtain ⟨k, hk, hscan⟩ := ih hts hend n (Nat.le_of_succ_le_succ hn)
          exact ⟨k, hk, by rw [List.cons_append, scanUpTo, if_pos hc, hscan]⟩
  | @token t ts text cs ht h ih =>
      intro n hn
      obtain ⟨hnumber, hts⟩ := hts
      have hstops : t.isNumber = true → Stops (cs ++ rest) := by
        intro ht
        refine h.stops_append (hnumber ht) fun hnil => hend t ?_ ht
        rw [hnil]
        rfl
      have hend' : ∀ t ∈ ts.getLast?, t.isNumber = true → Stops rest := by
        intro u hu
        refine hend u ?_
        rw [List.getLast?_cons, hu]
        rfl
      have hfirst := first?_append ht hstops
      obtain ⟨c, text', rfl, hblank, -⟩ := ht.eq_cons
      simp only [List.cons_append, List.append_assoc] at hn hfirst ⊢
      cases n with
      | zero => cases hn
      | succ n =>
          have hle : (cs ++ rest).length ≤ n := by
            simp only [List.length_cons, List.length_append] at hn ⊢
            omega
          obtain ⟨k, hk, hscan⟩ := ih hts hend' n hle
          refine ⟨k, hk, ?_⟩
          simp only [scanUpTo, hblank, Bool.false_eq_true, if_false, hfirst, hscan,
            Option.map_map]
          rfl

/-- Tokens that are laid out in a text are scanned from it. -/
theorem scan_of_laid (h : Laid ts cs) (hts : Spaced ts) : scan cs = some ts := by
  have hle : (cs ++ []).length ≤ cs.length := Nat.le_of_eq (by rw [List.append_nil])
  obtain ⟨k, -, hscan⟩ := scanUpTo_append h hts (fun _ _ _ => Stops.nil) cs.length hle
  have hnil : scanUpTo k [] = some [] := by cases k <;> rfl
  rw [List.append_nil, hnil, Option.map_some, List.append_nil] at hscan
  exact hscan

/-! ## Nothing else is scanned -/

theorem first?_eq_some {rest : List Char} (h : first? cs = some (t, rest)) :
    ∃ text, Writes text t ∧ cs = text ++ rest := by
  unfold first? at h
  split at h
  case h_10 =>
    obtain ⟨⟨s, rest'⟩, hread, he⟩ := Option.map_eq_some_iff.mp h
    cases he
    obtain ⟨text, hs, rfl⟩ := stringBody?_eq_some hread
    refine ⟨'"' :: text ++ ['"'], .string ?_, ?_⟩
    · rwa [String.toList_ofList]
    · simp only [List.cons_append, List.append_assoc, List.nil_append]
  case h_11 =>
    obtain ⟨⟨ds, rest'⟩, hread, he⟩ := Option.map_eq_some_iff.mp h
    cases he
    obtain ⟨hds, rfl⟩ := number?_eq_some hread
    exact ⟨ds, .number hds, rfl⟩
  all_goals
    cases h
    exact ⟨_, .mark rfl, rfl⟩

theorem laid_of_scanUpTo {n : Nat} (h : scanUpTo n cs = some ts) : Laid ts cs := by
  fun_induction scanUpTo n cs generalizing ts with
  | case1 n =>
      cases h
      exact .nil
  | case3 n c cs hc ih => exact .blank hc (ih h)
  | case5 n c cs hc t rest hfirst ih =>
      obtain ⟨ts', hrest, rfl⟩ := Option.map_eq_some_iff.mp h
      obtain ⟨text, ht, heq⟩ := first?_eq_some hfirst
      rw [heq]
      exact .token ht (ih hrest)
  -- In the other cases nothing is scanned.
  | _ => cases h

/-- What is scanned from a text is laid out in it. -/
theorem laid_of_scan (h : scan cs = some ts) : Laid ts cs := laid_of_scanUpTo h

theorem Laid.isNumber (h : Laid ts cs) {ds : List Char} (hds : .number ds ∈ ts) :
    IsNumber ds := by
  induction h with
  | nil => cases hds
  | blank _ _ ih => exact ih hds
  | token ht _ ih =>
      rcases List.mem_cons.mp hds with rfl | hds
      · cases ht with
        | number hd => exact hd
        | mark hm => cases hm
      · exact ih hds

/-! ## The way tokens are printed -/

theorem writes_text (h : ∀ ds, t = .number ds → IsNumber ds) : Writes t.text t := by
  cases t with
  | number ds => exact .number (h ds rfl)
  | string s => exact .string (spelling_flatMap_escape s.toList)
  | _ => exact .mark rfl

theorem laid_flatMap_text (h : ∀ ds, .number ds ∈ ts → IsNumber ds) :
    Laid ts (ts.flatMap Token.text) := by
  induction ts with
  | nil => exact .nil
  | cons t ts ih =>
      rw [List.flatMap_cons]
      refine .token (writes_text ?_) (ih fun ds hds => h ds (List.mem_cons_of_mem _ hds))
      intro ds hds
      exact h ds (hds ▸ List.mem_cons_self)

end Token

end ChipEight.Json
