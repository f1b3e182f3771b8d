import Mathlib.Data.List.Forall2
import Mathlib.Data.List.TakeWhile
import RegisterMachine.Json.Reader
import RegisterMachine.Json.Writer
import RegisterMachine.Proofs.Numerals

namespace RegisterMachine

/-- Only zero is written with a zero in front. -/
theorem Text.head?_natural {n : Nat} (h : n ≠ 0) : (natural n).toList.head? ≠ some '0' := by
  have hdigit : ∀ d < 10, d ≠ 0 → Nat.digitChar d ≠ '0' := by decide
  rw [natural, String.toList_ofList]
  induction n using Nat.strongRecOn with
  | ind n ih =>
    rw [Nat.toDigits_eq_if (by decide)]
    split
    · rename_i hlt
      simpa using hdigit n hlt h
    · rename_i hge
      rw [List.head?_append_of_ne_nil _ Nat.toDigits_ne_nil]
      exact ih (n / 10) (by omega) (by omega)

theorem Text.natural_eq_cons (n : Nat) :
    ∃ d ds, (natural n).toList = d :: ds ∧ d.isDigit = true := by
  have hne : (natural n).toList ≠ [] := by
    rw [natural, String.toList_ofList]
    exact Nat.toDigits_ne_nil
  obtain ⟨d, ds, htext⟩ := List.exists_cons_of_ne_nil hne
  exact ⟨d, ds, htext, isDigit_of_mem_natural (htext ▸ List.mem_cons_self)⟩

namespace Json

theorem ok_bind {α β : Type} (a : α) (f : α → Except Refusal β) : (Except.ok a >>= f) = f a :=
  rfl

/-- A piece of a literal stands for one character, whatever follows it. -/
def Piece.Spells (piece : Piece) (c : Char) : Prop :=
  ∀ pieces, textOf (piece :: pieces) = (textOf pieces).map (c :: ·)

theorem spells_char (c : Char) : (Piece.char c).Spells c :=
  fun _ => rfl

/-- Below the surrogates a number spells a character by itself. -/
theorem spells_unit {c : Char} (h : c.toNat < 0xD800) : (Piece.unit c.toNat).Spells c := by
  intro pieces
  have hlow : ¬ (0xD800 ≤ c.toNat ∧ c.toNat ≤ 0xDFFF) := by omega
  have hhigh : ¬ (0xD800 ≤ c.toNat ∧ c.toNat ≤ 0xDBFF) := by omega
  have hhalf : ¬ (0xDC00 ≤ c.toNat ∧ c.toNat ≤ 0xDFFF) := by omega
  cases pieces with
  | nil => simp only [textOf, if_neg hlow, Char.ofNat_toNat]
  | cons piece pieces =>
    cases piece with
    | char d => simp only [textOf, if_neg hlow, Char.ofNat_toNat]
    | unit code => simp only [textOf, if_neg hhigh, if_neg hhalf, Char.ofNat_toNat]

theorem hexDigit?_digitChar : ∀ d < 16, hexDigit? (Nat.digitChar d) = some d := by
  decide

theorem unitOf?_low {n : Nat} (h : n < 0x100) :
    unitOf? '0' '0' (Nat.digitChar (n / 16)) (Nat.digitChar (n % 16)) = some n := by
  have hzero : hexDigit? '0' = some 0 := rfl
  have hhigh := hexDigit?_digitChar (n / 16) (by omega)
  have hlow := hexDigit?_digitChar (n % 16) (by omega)
  simp only [unitOf?, hzero, hhigh, hlow, Option.bind_eq_bind, Option.bind_some, Option.pure_def]
  congr 1
  omega

/-- How a character is written: behind a backslash by the letter for it, by its number, or as it
is. -/
theorem escape_cases (c : Char) :
    (∃ e, escape c = ['\\', e] ∧ escaped? e = some c) ∨
    (c.toNat < 0x20 ∧ escape c =
      ['\\', 'u', '0', '0', Nat.digitChar (c.toNat / 16), Nat.digitChar (c.toNat % 16)]) ∨
    (c ≠ '"' ∧ c ≠ '\\' ∧ ¬ c.toNat < 0x20 ∧ escape c = [c]) := by
  have hcode : ∀ n, c.toNat = n → some (Char.ofNat n) = some c := by
    rintro _ rfl
    rw [Char.ofNat_toNat]
  unfold escape
  split
  · rename_i h; exact .inl ⟨'"', rfl, by rw [h]; rfl⟩
  split
  · rename_i h; exact .inl ⟨'\\', rfl, by rw [h]; rfl⟩
  split
  · rename_i h; exact .inl ⟨'n', rfl, by rw [h]; rfl⟩
  split
  · rename_i h; exact .inl ⟨'r', rfl, by rw [h]; rfl⟩
  split
  · rename_i h; exact .inl ⟨'t', rfl, by rw [h]; rfl⟩
  split
  · rename_i h; exact .inl ⟨'b', rfl, hcode 0x08 h⟩
  split
  · rename_i h; exact .inl ⟨'f', rfl, hcode 0x0C h⟩
  split
  · rename_i h; exact .inr (.inl ⟨h, rfl⟩)
  · rename_i hquote hslash _ _ _ _ _ hcontrol
    exact .inr (.inr ⟨hquote, hslash, hcontrol, rfl⟩)

theorem readPieces_escaped {e c : Char} (h : escaped? e = some c) (rest : List Char) :
    readPieces ('\\' :: e :: rest) = withPiece (.char c) (readPieces rest) := by
  rw [readPieces]
  · rw [h]
  · rintro _ _ _ _ _ rfl
    cases h

theorem readPieces_plain {c : Char} (hquote : c ≠ '"') (hslash : c ≠ '\\')
    (hcontrol : ¬ c.toNat < 0x20) (rest : List Char) :
    readPieces (c :: rest) = withPiece (.char c) (readPieces rest) := by
  rw [readPieces]
  · rw [if_neg hslash, if_neg hcontrol]
  · exact hquote
  · exact fun _ _ _ _ _ heq => absurd heq hslash
  · exact fun _ _ heq => absurd heq hslash

/-- A character is read as it is written. -/
theorem readPieces_escape (c : Char) (rest : List Char) :
    ∃ piece, readPieces (escape c ++ rest) = withPiece piece (readPieces rest) ∧
      piece.Spells c := by
  rcases escape_cases c with ⟨e, htext, he⟩ | ⟨hcontrol, htext⟩ |
    ⟨hquote, hslash, hcontrol, htext⟩
  · exact ⟨.char c, by rw [htext]; exact readPieces_escaped he rest, spells_char c⟩
  · refine ⟨.unit c.toNat, ?_, spells_unit (by omega)⟩
    have hunit := unitOf?_low (Nat.lt_trans hcontrol (by decide))
    simp only [htext, List.cons_append, List.nil_append, readPieces, hunit]
  · refine ⟨.char c, ?_, spells_char c⟩
    rw [htext]
    exact readPieces_plain hquote hslash hcontrol rest

/-- A text is read back from its literal. -/
theorem readPieces_flatMap_escape (cs rest : List Char) :
    ∃ pieces, readPieces (cs.flatMap escape ++ '"' :: rest) = .ok (pieces, rest) ∧
      textOf pieces = some cs := by
  induction cs with
  | nil => exact ⟨[], rfl, rfl⟩
  | cons c cs ih =>
    obtain ⟨pieces, hread, htext⟩ := ih
    obtain ⟨piece, hpiece, hspells⟩ := readPieces_escape c (cs.flatMap escape ++ '"' :: rest)
    refine ⟨piece :: pieces, ?_, ?_⟩
    · rw [List.flatMap_cons, List.append_assoc, hpiece, hread]
      rfl
    · rw [hspells, htext]
      rfl

/-- A text is followed by nothing, or by what may stand behind a value. -/
def Ends (rest : List Char) : Prop :=
  ∀ c ∈ rest.head?, c = ',' ∨ c = ']' ∨ c = '}'

/-- A text is read as a value, whatever follows it. -/
def Reads (text : List Char) (value : Value) : Prop :=
  ∀ fuel rest, Ends rest → readValue (fuel + 1) (text ++ rest) = .ok (value, rest)

section
variable {c : Char} {cs digits rest : List Char} {fuel : Nat}

theorem Ends.not_digit (h : Ends (c :: rest)) : c.isDigit = false := by
  rcases h c rfl with rfl | rfl | rfl <;> rfl

theorem readDigits_append (hne : digits ≠ []) (hdigits : ∀ c ∈ digits, c.isDigit = true)
    (hends : Ends rest) : readDigits (digits ++ rest) = some (digits, rest) := by
  have hrest : rest.takeWhile Char.isDigit = [] ∧ rest.dropWhile Char.isDigit = rest := by
    cases rest with
    | nil => exact ⟨rfl, rfl⟩
    | cons c rest => simp [hends.not_digit]
  simp only [readDigits, List.takeWhile_append_of_pos hdigits,
    List.dropWhile_append_of_pos hdigits, hrest, List.append_nil]
  rw [if_neg (by simpa using hne)]

theorem readFraction_of_ends (hends : Ends rest) : readFraction rest = some ([], rest) := by
  cases rest with
  | nil => rfl
  | cons c rest => rcases hends c rfl with rfl | rfl | rfl <;> rfl

theorem readExponent_of_ends (hends : Ends rest) : readExponent rest = some ([], rest) := by
  cases rest with
  | nil => rfl
  | cons c rest => rcases hends c rfl with rfl | rfl | rfl <;> rfl

theorem readWhole_natural (n : Nat) (hends : Ends rest) :
    readWhole ((Text.natural n).toList ++ rest) = some ((Text.natural n).toList, rest) := by
  by_cases hn : n = 0
  · subst hn
    rfl
  · have hfirst := Text.head?_natural hn
    obtain ⟨d, ds, htext, _⟩ := Text.natural_eq_cons n
    have hread : readDigits ((Text.natural n).toList ++ rest) = _ :=
      readDigits_append (by simp [htext]) (fun _ => Text.isDigit_of_mem_natural) hends
    rw [htext] at hread hfirst ⊢
    rw [List.cons_append, readWhole]
    · exact hread
    · rintro _ ⟨rfl, _⟩
      exact hfirst rfl

/-- A number is read as it is written. -/
theorem readNumber_natural (n : Nat) (hends : Ends rest) :
    readNumber ((Text.natural n).toList ++ rest) = some ((Text.natural n).toList, rest) := by
  have hwhole := readWhole_natural n hends
  obtain ⟨d, ds, htext, hd⟩ := Text.natural_eq_cons n
  rw [htext, List.cons_append] at hwhole ⊢
  have hsign : d ≠ '-' := by
    rintro rfl
    cases hd
  simp [readNumber, hsign, hwhole, readFraction_of_ends hends, readExponent_of_ends hends]

theorem skipGap_cons (h : isGap c = false) : skipGap (c :: cs) = c :: cs := by
  simp [skipGap, h]

/-- A digit can only start a number. -/
theorem readValue_digit (hd : c.isDigit = true) {literal : List Char}
    (h : readNumber (c :: cs) = some (literal, rest)) :
    readValue (fuel + 1) (c :: cs) = .ok (.number literal, rest) := by
  have hne : ∀ e : Char, e.isDigit = false → c ≠ e := by
    rintro e he rfl
    rw [hd] at he
    cases he
  have hgap : isGap c = false := by
    simp [isGap, hne ' ' rfl, hne '\t' rfl, hne '\n' rfl, hne '\r' rfl]
  rw [readValue, skipGap_cons hgap]
  simp [hne 'n' rfl, hne 't' rfl, hne 'f' rfl, hne '"' rfl, hne '[' rfl, hne '{' rfl, hd, h]

theorem readValue_quote {pieces : List Piece} (h : readPieces cs = .ok (pieces, rest)) :
    readValue (fuel + 1) ('"' :: cs) = .ok (.string (textOf pieces), rest) := by
  rw [readValue, skipGap_cons rfl]
  simp only [h]
  rfl

theorem reads_natural (n : Nat) :
    Reads (Text.natural n).toList (.number (Text.natural n).toList) := by
  intro fuel rest hends
  have hnumber := readNumber_natural n hends
  obtain ⟨d, ds, htext, hd⟩ := Text.natural_eq_cons n
  rw [htext, List.cons_append] at hnumber ⊢
  exact readValue_digit hd hnumber

theorem reads_null : Reads "null".toList .null := by
  intro fuel rest _
  rfl

theorem toList_quote (s : String) (rest : List Char) :
    (quote s).toList ++ rest = '"' :: (s.toList.flatMap escape ++ '"' :: rest) := by
  simp [quote]

theorem reads_quote (s : String) : Reads (quote s).toList (.string (some s.toList)) := by
  intro fuel rest _
  obtain ⟨pieces, hread, htext⟩ := readPieces_flatMap_escape s.toList rest
  rw [toList_quote, readValue_quote hread, htext]

end

/-- A member of an object as it is written, without what follows it. -/
def memberText (member : String × String) : List Char :=
  (quote member.1).toList ++ ':' :: member.2.toList

/-- What is written behind the first member of an object. -/
def tailText : List (String × String) → List Char
  | [] => ['}']
  | member :: rest => ',' :: (memberText member ++ tailText rest)

/-- A member is written with a key and a text that is read as the value. -/
structure Denotes (member : String × String) (meaning : Option (List Char) × Value) : Prop where
  key : meaning.1 = some member.1.toList
  value : Reads member.2.toList meaning.2

section
variable {member : String × String} {meaning : Option (List Char) × Value}
  {members : List (String × String)} {meanings : List (Option (List Char) × Value)}
  {rest after : List Char} {fuel : Nat}

theorem toList_object_cons (member : String × String) (members : List (String × String)) :
    (object (member :: members)).toList = '{' :: (memberText member ++ tailText members) := by
  induction members generalizing member with
  | nil => simp [object, memberText, tailText]
  | cons next members ih =>
    have hnext := ih next
    simp only [object, List.map_cons, String.intercalate_cons_cons, String.toList_append] at hnext ⊢
    simpa [memberText, tailText] using hnext

theorem ends_tailText (members : List (String × String)) (rest : List Char) :
    Ends (tailText members ++ rest) := by
  cases members with
  | nil => rintro c ⟨⟩; exact .inr (.inr rfl)
  | cons member members => rintro c ⟨⟩; exact .inl rfl

theorem memberText_append (member : String × String) (after : List Char) :
    memberText member ++ after =
      '"' :: (member.1.toList.flatMap escape ++ '"' :: ':' :: (member.2.toList ++ after)) := by
  rw [memberText, List.append_assoc, toList_quote]
  rfl

theorem readMembers_last (h : Denotes member meaning) :
    readMembers (fuel + 2) (memberText member ++ '}' :: rest) = .ok ([meaning], rest) := by
  obtain ⟨key, value⟩ := meaning
  obtain rfl : key = _ := h.key
  obtain ⟨pieces, hread, htext⟩ :=
    readPieces_flatMap_escape member.1.toList (':' :: (member.2.toList ++ '}' :: rest))
  have hvalue := h.value fuel ('}' :: rest) (ends_tailText [] rest)
  rw [memberText_append, readMembers, skipGap_cons rfl]
  simp only [hread, ok_bind, skipGap_cons (c := ':') rfl, hvalue, skipGap_cons (c := '}') rfl,
    htext]

theorem readMembers_next (h : Denotes member meaning)
    (hrest : readMembers (fuel + 1) rest = .ok (meanings, after)) :
    readMembers (fuel + 2) (memberText member ++ ',' :: rest) =
      .ok (meaning :: meanings, after) := by
  obtain ⟨key, value⟩ := meaning
  obtain rfl : key = _ := h.key
  obtain ⟨pieces, hread, htext⟩ :=
    readPieces_flatMap_escape member.1.toList (':' :: (member.2.toList ++ ',' :: rest))
  have hvalue := h.value fuel (',' :: rest) (by rintro c ⟨⟩; exact .inl rfl)
  rw [memberText_append, readMembers, skipGap_cons rfl]
  simp only [hread, ok_bind, skipGap_cons (c := ':') rfl, hvalue, skipGap_cons (c := ',') rfl,
    htext, hrest]

/-- The members of an object are read as what they denote, one after another. -/
theorem readMembers_members (h : Denotes member meaning)
    (hs : List.Forall₂ Denotes members meanings) (hfuel : members.length + 1 < fuel) :
    readMembers fuel (memberText member ++ (tailText members ++ rest)) =
      .ok (meaning :: meanings, rest) := by
  induction hs generalizing member meaning fuel with
  | nil =>
    obtain ⟨fuel, rfl⟩ : ∃ k, fuel = k + 2 := ⟨fuel - 2, by simp at hfuel; omega⟩
    exact readMembers_last h
  | cons hnext _ ih =>
    obtain ⟨fuel, rfl⟩ : ∃ k, fuel = k + 2 := ⟨fuel - 2, by simp at hfuel; omega⟩
    rw [tailText, List.cons_append, List.append_assoc]
    exact readMembers_next h (ih hnext (by simp at hfuel; omega))

theorem length_le_tailText (members : List (String × String)) :
    members.length < (tailText members).length := by
  induction members with
  | nil => decide
  | cons member members ih =>
    simp only [tailText, List.length_cons, List.length_append]
    omega

theorem readValue_brace {cs : List Char} (h : readMembers fuel ('"' :: cs) = .ok (meanings, rest)) :
    readValue (fuel + 1) ('{' :: '"' :: cs) = .ok (.object meanings, rest) := by
  rw [readValue, skipGap_cons rfl]
  simp [skipGap_cons (c := '"') rfl, h, ok_bind]

/-- An object is read as it is written, if the texts of its members are. -/
theorem read_object (h : List.Forall₂ Denotes members meanings) :
    read (object members).toList = .ok (.object meanings) := by
  cases h with
  | nil => rfl
  | @cons member meaning members meanings h hs =>
    have hlength := length_le_tailText members
    have hread : ∀ fuel, members.length + 1 < fuel →
        readValue (fuel + 1) (object (member :: members)).toList =
          .ok (.object (meaning :: meanings), []) := by
      intro fuel hfuel
      have hmembers : readMembers fuel (memberText member ++ (tailText members ++ [])) = _ :=
        readMembers_members h hs hfuel
      rw [List.append_nil, memberText_append] at hmembers
      rw [toList_object_cons, memberText_append]
      exact readValue_brace hmembers
    rw [read, hread]
    · rfl
    · rw [toList_object_cons]
      simp only [List.length_cons, List.length_append]
      omega

end

end Json

end RegisterMachine
