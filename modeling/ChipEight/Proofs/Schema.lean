import Mathlib.Data.List.Nodup
import ChipEight.Proofs.Fields

/-!
# The texts that hold a state

A text that writes an object holds a state exactly if the names of the members are
names of fields, none twice, all eleven but `awaiting_key` are there, and each value
fits its field (`exists_ofMembers?_iff`).  The state is the one whose own members these
are, in some order (`ofMembers?_eq_some_iff`).  So neither the order nor the way the
object is written matters, and a missing `awaiting_key` stands for null (`withKeyWait`).
-/

namespace ChipEight

open Json (Value)

namespace SavedState

/-- The values a field can hold. -/
def Fits (name : String) (v : Value) : Prop :=
  match name with
  | "version" => v.IsNatBelow 0x100000000
  | "i" | "pc" => v.IsNatBelow 0x10000
  | "delay_timer" | "sound_timer" => v.IsNatBelow 0x100
  | "memory" | "display" => v.IsArrayOf (Value.IsNatBelow 0x100)
  | "stack" => v.IsArrayOf (Value.IsNatBelow 0x10000)
  | "v" => v.IsSixteenOf (Value.IsNatBelow 0x100)
  | "keypad" => v.IsSixteenOf Value.IsBool
  | "redraw" => v.IsBool
  | "awaiting_key" => v = .null ∨ v.IsSixteenOf Value.IsBool
  | _ => False

/-- The members, and a null for the one that may be missing if it is. -/
def withKeyWait (ms : List (String × Value)) : List (String × Value) :=
  if "awaiting_key" ∈ ms.map Prod.fst then ms else ms ++ [("awaiting_key", .null)]

/-! ## Members by name -/

section Lookup

variable {ms ms' : List (String × Value)} {name : String} {v : Value}

theorem mem_of_lookup (h : ms.lookup name = some v) : (name, v) ∈ ms := by
  obtain ⟨l₁, l₂, rfl, -⟩ := List.lookup_eq_some_iff.mp h
  exact List.mem_append_right l₁ List.mem_cons_self

theorem lookup_eq_none_iff : ms.lookup name = none ↔ name ∉ ms.map Prod.fst := by
  rw [List.lookup_eq_none_iff]
  constructor
  · intro h hname
    obtain ⟨m, hm, rfl⟩ := List.mem_map.mp hname
    exact bne_iff_ne.mp (h m hm) rfl
  · intro h m hm
    exact bne_iff_ne.mpr fun he => h (he ▸ List.mem_map_of_mem hm)

/-- Where no name is repeated, a member is found by its name. -/
theorem lookup_eq_some_iff (hnodup : (ms.map Prod.fst).Nodup) :
    ms.lookup name = some v ↔ (name, v) ∈ ms := by
  refine ⟨mem_of_lookup, fun hm => ?_⟩
  cases hl : ms.lookup name with
  | none => exact absurd (List.mem_map_of_mem hm) (lookup_eq_none_iff.mp hl)
  | some w =>
      have he := List.inj_on_of_nodup_map hnodup (mem_of_lookup hl) hm rfl
      exact congrArg some (congrArg Prod.snd he)

/-- Where no name is repeated, the order does not matter. -/
theorem lookup_perm (h : ms'.Perm ms) (hnodup : (ms.map Prod.fst).Nodup) (name : String) :
    ms'.lookup name = ms.lookup name := by
  have hnodup' := (h.map Prod.fst).nodup_iff.mpr hnodup
  refine Option.ext fun v => ?_
  rw [lookup_eq_some_iff hnodup, lookup_eq_some_iff hnodup', h.mem_iff]

end Lookup

/-! ## What the state depends on -/

/-- The state of the values that are found under the names of the fields. -/
def ofLookup? (find : String → Option Value) : Option SavedState := do
  return {
    version := ← (find "version").bind doubleWord?
    memory := ← (find "memory").bind (list? byte?)
    registers := ← (find "v").bind (sixteen? byte?)
    index := ← (find "i").bind word?
    pc := ← (find "pc").bind word?
    stack := ← (find "stack").bind (list? word?)
    delay := ← (find "delay_timer").bind byte?
    sound := ← (find "sound_timer").bind byte?
    keypad := ← (find "keypad").bind (sixteen? bool?)
    display := ← (find "display").bind (list? byte?)
    redraw := ← (find "redraw").bind bool?
    awaitingKey := ← keyWait? ((find "awaiting_key").getD .null) }

/-- The names are names of fields, and none is repeated. -/
def NamesFields (ms : List (String × Value)) : Prop :=
  (∀ m ∈ ms, m.1 ∈ fieldNames) ∧ (ms.map Prod.fst).Nodup

instance (ms : List (String × Value)) : Decidable (NamesFields ms) :=
  inferInstanceAs (Decidable (_ ∧ _))

variable {ms ms' : List (String × Value)} {s : SavedState}

theorem ofMembers?_eq (ms : List (String × Value)) :
    ofMembers? ms =
      if NamesFields ms then ofLookup? (fun name => ms.lookup name) else none := by
  by_cases hknown : ∀ m ∈ ms, m.1 ∈ fieldNames
  · have hguard : guard (∀ m ∈ ms, m.1 ∈ fieldNames) = some () := if_pos hknown
    by_cases hnodup : (ms.map Prod.fst).Nodup
    · have hguard' : guard (ms.map Prod.fst).Nodup = some () := if_pos hnodup
      rw [if_pos ⟨hknown, hnodup⟩, ofMembers?, hguard, hguard']
      rfl
    · have hguard' : guard (ms.map Prod.fst).Nodup = (none : Option Unit) := if_neg hnodup
      rw [if_neg fun h => hnodup h.2, ofMembers?, hguard, hguard']
      rfl
  · have hguard : guard (∀ m ∈ ms, m.1 ∈ fieldNames) = (none : Option Unit) := if_neg hknown
    rw [if_neg fun h => hknown h.1, ofMembers?, hguard]
    rfl

/-- The order of the members does not matter. -/
theorem ofMembers?_perm (h : ms'.Perm ms) : ofMembers? ms' = ofMembers? ms := by
  have hnames : NamesFields ms' ↔ NamesFields ms :=
    and_congr (forall_congr' fun _ => imp_congr h.mem_iff Iff.rfl) (h.map Prod.fst).nodup_iff
  rw [ofMembers?_eq, ofMembers?_eq]
  by_cases hn : NamesFields ms
  · rw [if_pos hn, if_pos (hnames.mpr hn), funext (lookup_perm h hn.2)]
  · rw [if_neg hn, if_neg (mt hnames.mp hn)]

/-! ## A key wait that is not there -/

theorem mem_withKeyWait {m : String × Value} (hm : m ∈ ms) : m ∈ withKeyWait ms := by
  rw [withKeyWait]
  split
  · exact hm
  · exact List.mem_append_left _ hm

theorem forall_mem_withKeyWait {P : String × Value → Prop} (h : ∀ m ∈ ms, P m)
    (hnull : P ("awaiting_key", .null)) : ∀ m ∈ withKeyWait ms, P m := by
  rw [withKeyWait]
  split
  · exact h
  · exact List.forall_mem_append.mpr ⟨h, List.forall_mem_singleton.mpr hnull⟩

theorem name_mem_withKeyWait {name : String} :
    name ∈ (withKeyWait ms).map Prod.fst ↔ name ∈ ms.map Prod.fst ∨ name = "awaiting_key" := by
  rw [withKeyWait]
  split
  next hkey => exact (or_iff_left_of_imp fun he => he ▸ hkey).symm
  next => rw [List.map_append, List.mem_append, List.map_singleton, List.mem_singleton]

theorem namesFields_withKeyWait : NamesFields (withKeyWait ms) ↔ NamesFields ms := by
  rw [withKeyWait]
  split
  next => exact Iff.rfl
  next habsent =>
    rw [NamesFields, NamesFields, List.forall_mem_append, List.map_append, List.map_singleton,
      ← List.concat_eq_append, List.nodup_concat]
    exact and_congr (and_iff_left (by decide)) (and_iff_right habsent)

/-- For the key wait, to find nothing is as good as to find null. -/
theorem ofLookup?_congr {find look : String → Option Value}
    (h : ∀ name, name ≠ "awaiting_key" → find name = look name)
    (hkey : (find "awaiting_key").getD .null = (look "awaiting_key").getD .null) :
    ofLookup? find = ofLookup? look := by
  simp (disch := decide) only [ofLookup?, h, hkey]

/-- A key wait that is not there is read as null. -/
theorem ofMembers?_withKeyWait (ms : List (String × Value)) :
    ofMembers? (withKeyWait ms) = ofMembers? ms := by
  rw [ofMembers?_eq, ofMembers?_eq]
  simp only [namesFields_withKeyWait]
  by_cases hkey : "awaiting_key" ∈ ms.map Prod.fst
  · rw [withKeyWait, if_pos hkey]
  · have hfind : ofLookup? (fun name => (withKeyWait ms).lookup name) =
        ofLookup? fun name => ms.lookup name := by
      rw [withKeyWait, if_neg hkey]
      apply ofLookup?_congr
      · intro name hname
        rw [List.lookup_append, List.lookup_cons, beq_false_of_ne hname, List.lookup_nil]
        exact Option.or_none
      · rw [List.lookup_append, lookup_eq_none_iff.mpr hkey]
        rfl
    rw [hfind]

/-! ## The members of a state -/

theorem fits_of_mem_members (s : SavedState) : ∀ m ∈ s.members, Fits m.1 m.2 := by
  simp only [members, List.forall_mem_cons]
  exact ⟨codec_doubleWord.fits_iff.mpr ⟨_, rfl⟩, codec_byte.list.fits_iff.mpr ⟨_, rfl⟩,
    codec_byte.sixteen.fits_iff.mpr ⟨_, rfl⟩, codec_word.fits_iff.mpr ⟨_, rfl⟩,
    codec_word.fits_iff.mpr ⟨_, rfl⟩, codec_word.list.fits_iff.mpr ⟨_, rfl⟩,
    codec_byte.fits_iff.mpr ⟨_, rfl⟩, codec_byte.fits_iff.mpr ⟨_, rfl⟩,
    codec_bool.sixteen.fits_iff.mpr ⟨_, rfl⟩, codec_byte.list.fits_iff.mpr ⟨_, rfl⟩,
    codec_bool.fits_iff.mpr ⟨_, rfl⟩, codec_keyWait.fits_iff.mpr ⟨_, rfl⟩, List.forall_mem_nil _⟩

theorem nodup_names_members (s : SavedState) : (s.members.map Prod.fst).Nodup := by
  rw [names_members]
  decide

/-- Members that name fields and hold all that a state has are those of the state. -/
theorem perm_members (hnames : NamesFields ms) (hmem : ∀ m ∈ s.members, m ∈ ms) :
    ms.Perm s.members := by
  obtain ⟨hknown, hnodup⟩ := hnames
  rw [List.perm_ext_iff_of_nodup (List.Nodup.of_map _ hnodup)
    (List.Nodup.of_map _ s.nodup_names_members)]
  refine fun m => ⟨fun hm => ?_, hmem m⟩
  have hname : m.1 ∈ s.members.map Prod.fst := by
    rw [names_members]
    exact hknown m hm
  obtain ⟨m', hm', he⟩ := List.mem_map.mp hname
  rwa [← List.inj_on_of_nodup_map hnodup (hmem m' hm') hm he]

section Codec

variable {α : Type} {read? : Value → Option α} {write : α → Value} {fits : Value → Prop}

theorem Codec.find_eq (h : Codec read? write fits) {find : String → Option Value} {name : String}
    {a : α} (hnum : ∀ v, find name = some v → v.Numeric)
    (hread : (find name).bind read? = some a) : find name = some (write a) := by
  obtain ⟨v, hv, hread⟩ := Option.bind_eq_some_iff.mp hread
  rw [hv, h.eq_write (hnum v hv) hread]

theorem Codec.exists_mem (h : Codec read? write fits) {name : String}
    (hmem : ∃ v, (name, v) ∈ ms ∧ fits v) : ∃ a, (name, write a) ∈ ms := by
  obtain ⟨v, hv, hfits⟩ := hmem
  obtain ⟨a, rfl⟩ := h.fits_iff.mp hfits
  exact ⟨a, hv⟩

end Codec

/-- A state is read only from the values its fields are written as. -/
theorem find_of_ofLookup? {find : String → Option Value}
    (hnum : ∀ name v, find name = some v → v.Numeric) (hkey : find "awaiting_key" ≠ none)
    (h : ofLookup? find = some s) : ∀ m ∈ s.members, find m.1 = some m.2 := by
  rw [ofLookup?] at h
  obtain ⟨_, hversion, h⟩ := Option.bind_eq_some_iff.mp h
  obtain ⟨_, hmemory, h⟩ := Option.bind_eq_some_iff.mp h
  obtain ⟨_, hregisters, h⟩ := Option.bind_eq_some_iff.mp h
  obtain ⟨_, hindex, h⟩ := Option.bind_eq_some_iff.mp h
  obtain ⟨_, hpc, h⟩ := Option.bind_eq_some_iff.mp h
  obtain ⟨_, hstack, h⟩ := Option.bind_eq_some_iff.mp h
  obtain ⟨_, hdelay, h⟩ := Option.bind_eq_some_iff.mp h
  obtain ⟨_, hsound, h⟩ := Option.bind_eq_some_iff.mp h
  obtain ⟨_, hkeypad, h⟩ := Option.bind_eq_some_iff.mp h
  obtain ⟨_, hdisplay, h⟩ := Option.bind_eq_some_iff.mp h
  obtain ⟨_, hredraw, h⟩ := Option.bind_eq_some_iff.mp h
  obtain ⟨wait, hwait, h⟩ := Option.bind_eq_some_iff.mp h
  cases h
  have hawaiting : (find "awaiting_key").bind keyWait? = some wait := by
    obtain ⟨v, hv⟩ := Option.ne_none_iff_exists'.mp hkey
    rw [hv] at hwait ⊢
    exact hwait
  simp only [members, List.forall_mem_cons]
  exact ⟨codec_doubleWord.find_eq (hnum _) hversion, codec_byte.list.find_eq (hnum _) hmemory,
    codec_byte.sixteen.find_eq (hnum _) hregisters, codec_word.find_eq (hnum _) hindex,
    codec_word.find_eq (hnum _) hpc, codec_word.list.find_eq (hnum _) hstack,
    codec_byte.find_eq (hnum _) hdelay, codec_byte.find_eq (hnum _) hsound,
    codec_bool.sixteen.find_eq (hnum _) hkeypad, codec_byte.list.find_eq (hnum _) hdisplay,
    codec_bool.find_eq (hnum _) hredraw, codec_keyWait.find_eq (hnum _) hawaiting,
    List.forall_mem_nil _⟩

/-- The state of members is the one that has these members. -/
theorem ofMembers?_eq_some_iff (hnum : ∀ m ∈ ms, m.2.Numeric) :
    ofMembers? ms = some s ↔ (withKeyWait ms).Perm s.members := by
  rw [← ofMembers?_withKeyWait]
  constructor
  · intro h
    rw [ofMembers?_eq] at h
    split at h
    next hnames =>
      refine perm_members hnames fun m hm => mem_of_lookup ?_
      refine find_of_ofLookup? (fun name v hv => ?_) ?_ h m hm
      · have hnull : (("awaiting_key", Value.null) : String × Value).2.Numeric :=
          Value.numeric_null
        exact forall_mem_withKeyWait hnum hnull (name, v) (mem_of_lookup hv)
      · rw [Ne, lookup_eq_none_iff, not_not]
        exact name_mem_withKeyWait.mpr (Or.inr rfl)
    next => cases h
  · intro h
    rw [ofMembers?_perm h, ofMembers?_members]

/-- If each name of a field has a value that fits it, these are the members of a state. -/
theorem exists_state (hnames : ∀ name ∈ fieldNames, name ∈ ms.map Prod.fst)
    (hfits : ∀ m ∈ ms, Fits m.1 m.2) : ∃ s : SavedState, ∀ m ∈ s.members, m ∈ ms := by
  have hfield (name : String) (hname : name ∈ fieldNames) : ∃ v, (name, v) ∈ ms ∧ Fits name v := by
    obtain ⟨m, hm, rfl⟩ := List.mem_map.mp (hnames name hname)
    exact ⟨m.2, hm, hfits m hm⟩
  obtain ⟨version, hversion⟩ := codec_doubleWord.exists_mem (hfield "version" (by decide))
  obtain ⟨memory, hmemory⟩ := codec_byte.list.exists_mem (hfield "memory" (by decide))
  obtain ⟨registers, hregisters⟩ := codec_byte.sixteen.exists_mem (hfield "v" (by decide))
  obtain ⟨index, hindex⟩ := codec_word.exists_mem (hfield "i" (by decide))
  obtain ⟨pc, hpc⟩ := codec_word.exists_mem (hfield "pc" (by decide))
  obtain ⟨stack, hstack⟩ := codec_word.list.exists_mem (hfield "stack" (by decide))
  obtain ⟨delay, hdelay⟩ := codec_byte.exists_mem (hfield "delay_timer" (by decide))
  obtain ⟨sound, hsound⟩ := codec_byte.exists_mem (hfield "sound_timer" (by decide))
  obtain ⟨keypad, hkeypad⟩ := codec_bool.sixteen.exists_mem (hfield "keypad" (by decide))
  obtain ⟨display, hdisplay⟩ := codec_byte.list.exists_mem (hfield "display" (by decide))
  obtain ⟨redraw, hredraw⟩ := codec_bool.exists_mem (hfield "redraw" (by decide))
  obtain ⟨awaitingKey, hawaiting⟩ := codec_keyWait.exists_mem (hfield "awaiting_key" (by decide))
  refine ⟨⟨version, memory, registers, index, pc, stack, delay, sound, keypad, display, redraw,
    awaitingKey⟩, ?_⟩
  simp only [members, List.forall_mem_cons]
  exact ⟨hversion, hmemory, hregisters, hindex, hpc, hstack, hdelay, hsound, hkeypad, hdisplay,
    hredraw, hawaiting, List.forall_mem_nil _⟩

/-- Members are those of a state if they name fields, all but the one that may be
missing are there, and each value fits. -/
theorem exists_ofMembers?_iff (hnum : ∀ m ∈ ms, m.2.Numeric) :
    (∃ s, ofMembers? ms = some s) ↔
      NamesFields ms ∧
        (∀ name ∈ fieldNames, name ≠ "awaiting_key" → name ∈ ms.map Prod.fst) ∧
          ∀ m ∈ ms, Fits m.1 m.2 := by
  simp only [ofMembers?_eq_some_iff hnum]
  constructor
  · rintro ⟨s, h⟩
    have hmem {m : String × Value} (hm : m ∈ ms) : m ∈ s.members :=
      h.mem_iff.mp (mem_withKeyWait hm)
    refine ⟨namesFields_withKeyWait.mp ⟨?_, ?_⟩, ?_, ?_⟩
    · intro m hm
      exact name_mem_fieldNames (h.mem_iff.mp hm)
    · exact (h.map Prod.fst).nodup_iff.mpr s.nodup_names_members
    · intro name hname hkey
      rw [← s.names_members, ← (h.map Prod.fst).mem_iff] at hname
      exact (name_mem_withKeyWait.mp hname).resolve_right hkey
    · intro m hm
      exact s.fits_of_mem_members m (hmem hm)
  · rintro ⟨hnames, hpresent, hfits⟩
    have hall : ∀ name ∈ fieldNames, name ∈ (withKeyWait ms).map Prod.fst := by
      intro name hname
      rw [name_mem_withKeyWait]
      by_cases hkey : name = "awaiting_key"
      · exact Or.inr hkey
      · exact Or.inl (hpresent name hname hkey)
    have hnull : Fits "awaiting_key" .null := Or.inl rfl
    obtain ⟨s, hs⟩ := exists_state hall (forall_mem_withKeyWait hfits hnull)
    exact ⟨s, perm_members (namesFields_withKeyWait.mpr hnames) hs⟩

/-! ## Texts -/

theorem parse?_of_writtenAs {v : Value} {text : String} (h : v.WrittenAs text) :
    parse? text = ofValue? v := by
  rw [parse?, Value.read?_eq_some_iff.mpr h, Option.bind_some]

/-- A text that writes an object holds a state exactly if its members name fields, each
at most once, all but `awaiting_key` are there, and each value fits its field.  The
state is the one with these members, so every text that writes them holds the same: in
any order, with any blanks and escapes, with `awaiting_key` null or left out, and as
an array of the values in the order of the fields. -/
theorem state_schema_exact {ms : List (String × Value)} {text : String}
    (h : (Value.object ms).WrittenAs text) :
    ((∃ s, parse? text = some s) ↔
      ((∀ m ∈ ms, m.1 ∈ fieldNames) ∧ (ms.map Prod.fst).Nodup) ∧
        (∀ name ∈ fieldNames, name ≠ "awaiting_key" → name ∈ ms.map Prod.fst) ∧
          ∀ m ∈ ms, Fits m.1 m.2) ∧
    (∀ s, parse? text = some s ↔ (withKeyWait ms).Perm s.members) ∧
    (∀ ms' text', (Value.object ms').WrittenAs text' → ms'.Perm ms →
      parse? text' = parse? text) ∧
    ("awaiting_key" ∉ ms.map Prod.fst → ∀ text',
      (Value.object (ms ++ [("awaiting_key", .null)])).WrittenAs text' →
        parse? text' = parse? text) ∧
    (∀ vs text', vs.length ≤ fieldNames.length → ms = fieldNames.zip vs →
      (Value.array vs).WrittenAs text' → parse? text' = parse? text) := by
  have hnum := Value.numeric_object.mp h.numeric
  simp only [parse?_of_writtenAs h, ofValue?]
  refine ⟨exists_ofMembers?_iff hnum, fun s => ofMembers?_eq_some_iff hnum, ?_, ?_, ?_⟩
  · intro ms' text' h' hperm
    rw [parse?_of_writtenAs h', ofValue?, ofMembers?_perm hperm]
  · intro habsent text' h'
    rw [parse?_of_writtenAs h', ofValue?, ← ofMembers?_withKeyWait ms, withKeyWait,
      if_neg habsent]
  · intro vs text' hlen hzip h'
    rw [parse?_of_writtenAs h', ofValue?, if_pos hlen, hzip]

/-- An object from the last field to the first, with blanks and an escaped name and
without a key wait, and an array of eleven values: both hold the same state. -/
theorem backward_object_and_array_agree :
    let s : SavedState :=
      { version := 1, memory := [7, 255], registers := Vector.replicate 16 3, index := 0x200,
        pc := 65535, stack := [514], delay := 0, sound := 9, keypad := Vector.replicate 16 false,
        display := [], redraw := true, awaitingKey := none }
    let object :=
      "\x7b \"redraw\" : true,\n \"display\":[ ], \"keypad\":[false,false,false,false,false,"
        ++ "false,false,false,false,false,false,false,false,false,false,false],\t"
        ++ "\"sound_timer\":9,\"delay_timer\":0,\"stack\":[514],\"\\u0070\\u0063\":65535,"
        ++ "\"i\":512,\"v\":[3,3,3,3,3,3,3,3,3,3,3,3,3,3,3,3],\"memory\":[7,255],\"version\":1\x7d "
    let array :=
      "[1,[7,255],[3,3,3,3,3,3,3,3,3,3,3,3,3,3,3,3],512,65535,[514],0,9,[false,false,false,"
        ++ "false,false,false,false,false,false,false,false,false,false,false,false,false],[],true]"
    parse? object = some s ∧ parse? array = some s := by
  intro s object array
  let ms := s.members.dropLast
  have habsent : "awaiting_key" ∉ ms.map Prod.fst := by decide
  -- The literals are unfolded to their characters first: evaluating `toList` is slow.
  have hobject : (Value.object ms.reverse).WrittenAs object := by
    apply Json.Token.laid_of_scan
    simp only [object, String.toList_append]
    repeat rw [String.toList_ofList]
    decide +kernel
  have harray : (Value.array (ms.map Prod.snd)).WrittenAs array := by
    apply Json.Token.laid_of_scan
    simp only [array, String.toList_append]
    repeat rw [String.toList_ofList]
    decide +kernel
  have hmembers : (withKeyWait ms).Perm s.members := by
    rw [withKeyWait, if_neg habsent]
    exact List.Perm.refl _
  have hnum : (Value.object ms).Numeric := by
    rw [Value.numeric_object]
    exact fun m hm => s.numeric_members m (List.dropLast_subset _ hm)
  obtain ⟨-, hstate, horder, -, hvalues⟩ := state_schema_exact (Value.writtenAs_render hnum)
  have hrender := (hstate s).mpr hmembers
  constructor
  · rw [horder _ _ hobject ms.reverse_perm, hrender]
  · rw [hvalues _ _ (by decide) rfl harray, hrender]

end SavedState

end ChipEight
