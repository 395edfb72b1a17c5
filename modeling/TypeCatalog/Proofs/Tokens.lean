import TypeCatalog.Json.Reader

/-!
Tokens and what stands between them.

A number, a string or a word is passed over where it is read, and takes characters from the text
(`skipScalar_of_scalar`).  Passing over it asks less: a number may be out of range, and the
surrogates of a string may stand alone.  `nextKey_cases` and `nextElement_cases` say what there is
up to the next key of an object and the next element of an array.
-/

namespace TypeCatalog.Json

/-! ## Numbers -/

/-- Columns add up. -/
theorem Position.skip_skip (p : Position) (m n : Nat) : (p.skip m).skip n = p.skip (m + n) := by
  simp only [Position.skip, Nat.add_assoc]

/-- A token is read whatever the fault at the end of the text would be, and takes so many characters
at least. -/
def Steady {α : Type} (least : Nat) (lex : SyntaxError → Lexer α) : Prop :=
  ∀ atEnd atEnd' c x c', lex atEnd c = .ok (x, c') →
    lex atEnd' c = .ok (x, c') ∧ c'.rest.length + least ≤ c.rest.length

/-- Taking digits off a text loses no character. -/
theorem length_takeDigits (text : List Char) :
    (takeDigits text).1.length + (takeDigits text).2.length = text.length := by
  induction text with
  | nil => rfl
  | cons c rest ih =>
    unfold takeDigits
    cases digit? c with
    | none => simp
    | some d =>
      simp only [List.length_cons]
      omega

theorem length_digits (c : Cursor) :
    (digits c).1.length + (digits c).2.rest.length = c.rest.length :=
  length_takeDigits c.rest

/-- Where digits are wanted there is one at least, whatever the end of the text would mean. -/
theorem steady_someDigits : Steady 1 someDigits := by
  intro atEnd atEnd' c ds c' h
  have lengths := length_digits c
  rcases taken : digits c with ⟨_ | ⟨d, more⟩, c₁⟩
  · simp only [someDigits, taken] at h
    split at h <;> cases h
  · simp only [someDigits, taken, List.length_cons] at h lengths ⊢
    cases h
    exact ⟨rfl, by omega⟩

/-- The whole part of a number is one digit at least. -/
theorem steady_wholePart : Steady 1 wholePart := by
  intro atEnd atEnd' c ds c' h
  unfold wholePart at h ⊢
  cases taken : someDigits atEnd c with
  | error e =>
    rw [taken] at h
    cases h
  | ok read =>
    obtain ⟨ds', c₁⟩ := read
    obtain ⟨again, shorter⟩ := steady_someDigits atEnd atEnd' c ds' c₁ taken
    rw [taken] at h
    rw [again]
    refine ⟨h, ?_⟩
    split at h
    · cases h
    · cases h
    · rename_i same
      cases same
      cases h
      exact shorter

/-- There need not be a fraction. -/
theorem steady_fractionPart : Steady 0 fractionPart := by
  intro atEnd atEnd' c x c' h
  unfold fractionPart at h ⊢
  split at h
  · rename_i rest point
    cases taken : someDigits atEnd ⟨c.position.skip 1, rest⟩ with
    | error e =>
      rw [taken] at h
      cases h
    | ok read =>
      obtain ⟨ds, c₁⟩ := read
      obtain ⟨again, shorter⟩ := steady_someDigits atEnd atEnd' _ ds c₁ taken
      rw [taken] at h
      cases h
      dsimp only at shorter
      rw [again, point, List.length_cons]
      exact ⟨rfl, by omega⟩
  · cases h
    exact ⟨rfl, Nat.le_refl _⟩

theorem length_exponentSign (c : Cursor) : (exponentSign c).2.rest.length ≤ c.rest.length := by
  unfold exponentSign
  split
  · rename_i rest sign
    rw [sign, List.length_cons]
    exact Nat.le_succ _
  · rename_i rest sign
    rw [sign, List.length_cons]
    exact Nat.le_succ _
  · exact Nat.le_refl _

/-- There need not be an exponent. -/
theorem steady_exponentPart : Steady 0 exponentPart := by
  intro atEnd atEnd' c x c' h
  unfold exponentPart at h ⊢
  split at h
  · rename_i letter rest first
    split at h
    · rename_i marked
      have sign := length_exponentSign ⟨c.position.skip 1, rest⟩
      rcases signed : exponentSign ⟨c.position.skip 1, rest⟩ with ⟨negative, c₁⟩
      simp only [signed] at h sign ⊢
      cases taken : someDigits atEnd c₁ with
      | error e =>
        rw [taken] at h
        cases h
      | ok read =>
        obtain ⟨ds, c₂⟩ := read
        obtain ⟨again, shorter⟩ := steady_someDigits atEnd atEnd' _ ds c₂ taken
        rw [taken] at h
        cases h
        rw [if_pos marked, again, first, List.length_cons]
        exact ⟨rfl, by omega⟩
    · rename_i unmarked
      cases h
      rw [if_neg unmarked]
      exact ⟨rfl, Nat.le_refl _⟩
  · cases h
    exact ⟨rfl, Nat.le_refl _⟩

/-- An amount begins with a digit. -/
theorem steady_unsigned (negative : Bool) : Steady 1 fun atEnd => unsigned atEnd negative := by
  intro atEnd atEnd' c x c' h
  dsimp only at h ⊢
  unfold unsigned at h ⊢
  rcases whole : wholePart atEnd c with e | ⟨ds, c₁⟩
  · rw [whole] at h
    cases h
  · rw [whole] at h
    dsimp only at h
    rcases fraction : fractionPart atEnd c₁ with e | ⟨fs, c₂⟩
    · rw [fraction] at h
      cases h
    · rw [fraction] at h
      dsimp only at h
      rcases exponent : exponentPart atEnd c₂ with e | ⟨es, c₃⟩
      · rw [exponent] at h
        cases h
      · rw [exponent] at h
        cases h
        obtain ⟨whole', first⟩ := steady_wholePart atEnd atEnd' c ds c₁ whole
        obtain ⟨fraction', second⟩ := steady_fractionPart atEnd atEnd' c₁ fs c₂ fraction
        obtain ⟨exponent', third⟩ := steady_exponentPart atEnd atEnd' c₂ es _ exponent
        simp only [whole', fraction', exponent']
        exact ⟨trivial, by omega⟩

/-- A number takes one character at least, and the end of the text is none of its concern. -/
theorem steady_scan : Steady 1 scan := by
  intro atEnd atEnd' c x c' h
  unfold scan at h ⊢
  split at h
  · rename_i rest sign
    obtain ⟨again, shorter⟩ := steady_unsigned true atEnd atEnd' _ x c' h
    rw [sign]
    simp only [List.length_cons] at shorter ⊢
    exact ⟨again, by omega⟩
  · exact steady_unsigned false atEnd atEnd' c x c' h

/-- Where a number is read, passing over it ends in the same place. -/
theorem skipNumber_of_number {c c' : Cursor} {v : Json} (h : number c = .ok (v, c')) :
    skipNumber c = .ok c' ∧ c'.rest.length < c.rest.length := by
  unfold number at h
  rcases taken : scan .eofValue c with e | ⟨numeral, c₁⟩
  · rw [taken] at h
    cases h
  · rw [taken] at h
    dsimp only at h
    split at h
    · cases h
      obtain ⟨again, shorter⟩ := steady_scan .eofValue .invalidNumber c numeral c' taken
      unfold skipNumber
      rw [again]
      exact ⟨rfl, shorter⟩
    · cases h

/-! ## Strings and words -/

/-- Where the text of a string is read, passing over it ends in the same place. -/
theorem skipStringFrom_of_stringFrom {p : Position} {read text : List Char} {s : String}
    {c' : Cursor} (h : stringFrom p read text = .ok (s, c')) :
    skipStringFrom p text = .ok c' ∧ c'.rest.length < text.length := by
  fun_induction stringFrom p read text with
  | case2 p read rest =>
    cases h
    exact ⟨rfl, Nat.lt_succ_self _⟩
  | case9 p read a b c d n leading _ _ a' b' c' d' rest m trailing _ ih =>
    -- the one character that two escapes stand for is passed over escape by escape
    obtain ⟨passed, shorter⟩ := ih h
    simp only [skipStringFrom, leading, trailing, Position.skip_skip, List.length_cons]
    exact ⟨passed, by omega⟩
  | case14 p read a b c d rest n digits _ _ ih =>
    obtain ⟨passed, shorter⟩ := ih h
    simp only [skipStringFrom, digits, List.length_cons]
    exact ⟨passed, by omega⟩
  | case16 p read letter rest notHex notU ch escape ih =>
    obtain ⟨passed, shorter⟩ := ih h
    rw [skipStringFrom, escape, List.length_cons, List.length_cons]
    · exact ⟨passed, by omega⟩
    · exact notHex
    · exact notU
  | case19 p read ch rest notQuote notLast notHex notU notLetter printable ih =>
    obtain ⟨passed, shorter⟩ := ih h
    rw [skipStringFrom, if_neg printable, List.length_cons]
    · exact ⟨passed, by omega⟩
    · exact notQuote
    · exact notLast
    · exact notHex
    · exact notU
    · exact notLetter
  | _ => cases h

/-- A string that can be read is skipped to the same place, which is further on. -/
theorem skipString_of_string {c c' : Cursor} {s : String} (h : string c = .ok (s, c')) :
    skipString c = .ok c' ∧ c'.rest.length < c.rest.length :=
  skipStringFrom_of_stringFrom h

/-- Reading a word takes no character more than there are. -/
theorem length_of_word {letters : List Char} {c c' : Cursor} (h : word letters c = .ok c') :
    c'.rest.length ≤ c.rest.length := by
  induction letters generalizing c with
  | nil =>
    cases h
    exact Nat.le_refl _
  | cons letter more ih =>
    unfold word at h
    split at h
    · cases h
    · rename_i next rest first
      split at h
      · have later := ih h
        rw [first, List.length_cons]
        exact Nat.le_succ_of_le later
      · cases h

/-- Where a word, a number or a string is read, passing over it ends in the same place. -/
theorem skipScalar_of_scalar {c c' : Cursor} {v : Json} (h : scalar c = .ok (v, c')) :
    skipScalar c = .ok c' ∧ c'.rest.length < c.rest.length := by
  have ofWord : ∀ {letters rest x} {f : Cursor → Json × Cursor}, (∀ c, (f c).2 = c) →
      (word letters ⟨c.position.skip 1, rest⟩).map f = .ok (x, c') →
      word letters ⟨c.position.skip 1, rest⟩ = .ok c' ∧ c'.rest.length < rest.length + 1 := by
    intro letters rest x f same eq
    cases taken : word letters ⟨c.position.skip 1, rest⟩ with
    | error m =>
      rw [taken] at eq
      cases eq
    | ok c₁ =>
      rw [taken] at eq
      have behind : c₁ = c' := (same c₁).symm.trans (congrArg Prod.snd (Except.ok.inj eq))
      subst behind
      exact ⟨rfl, Nat.lt_succ_of_le (length_of_word taken)⟩
  unfold scalar at h
  unfold skipScalar
  split at h
  · cases h
  · rename_i rest first
    rw [first]
    exact ofWord (fun _ => rfl) h
  · rename_i rest first
    rw [first]
    exact ofWord (fun _ => rfl) h
  · rename_i rest first
    rw [first]
    exact ofWord (fun _ => rfl) h
  · rename_i rest first
    rw [first]
    cases taken : string ⟨c.position.skip 1, rest⟩ with
    | error m =>
      rw [taken] at h
      cases h
    | ok read =>
      obtain ⟨text, c₁⟩ := read
      rw [taken] at h
      cases h
      obtain ⟨passed, shorter⟩ := skipString_of_string taken
      exact ⟨passed, Nat.lt_succ_of_lt shorter⟩
  · split at h
    · rename_i numeric
      rw [if_pos numeric]
      exact skipNumber_of_number h
    · cases h

/-! ## Between tokens -/

/-- Skipping blanks adds nothing to the text. -/
theorem length_skipBlanksFrom (p : Position) (text : List Char) :
    (skipBlanksFrom p text).rest.length ≤ text.length := by
  induction text generalizing p with
  | nil => exact Nat.le_refl _
  | cons c rest ih =>
    unfold skipBlanksFrom
    split
    · exact Nat.le_succ_of_le (ih (p.after c))
    · exact Nat.le_refl _

theorem length_skipBlanks (c : Cursor) : c.skipBlanks.rest.length ≤ c.rest.length :=
  length_skipBlanksFrom c.position c.rest

/-- Blanks are skipped all at once. -/
@[simp]
theorem skipBlanks_skipBlanks (c : Cursor) : c.skipBlanks.skipBlanks = c.skipBlanks := by
  obtain ⟨p, text⟩ := c
  show (skipBlanksFrom p text).skipBlanks = skipBlanksFrom p text
  induction text generalizing p with
  | nil => rfl
  | cons c rest ih =>
    unfold skipBlanksFrom
    split
    · exact ih (p.after c)
    · rename_i solid
      exact if_neg solid

/-- A colon is one character at least. -/
theorem length_of_colon {c c' : Cursor} (h : colon c = .ok c') :
    c'.rest.length < c.rest.length := by
  have blanks := length_skipBlanks c
  unfold colon at h
  dsimp only at h
  split at h
  · cases h
  · rename_i rest first
    cases h
    rw [first, List.length_cons] at blanks
    exact blanks
  · cases h

/-- A key and its colon are passed over where they are read. -/
theorem skipKey_of_string {c c₁ c₂ : Cursor} {rest : List Char} {key : String}
    (quote : c.skipBlanks.rest = '"' :: rest)
    (read : string ⟨c.skipBlanks.position.skip 1, rest⟩ = .ok (key, c₁))
    (h : colon c₁ = .ok c₂) : skipKey c = .ok c₂ ∧ c₂.rest.length < c.rest.length := by
  obtain ⟨passed, shorter⟩ := skipString_of_string read
  have blanks := length_skipBlanks c
  have behind := length_of_colon h
  rw [quote, List.length_cons] at blanks
  dsimp only at shorter
  simp only [skipKey, quote, passed, h]
  exact ⟨trivial, by omega⟩

/-- What there is to the next key of an object: no key before the closing bracket, a first key where
it stands, or a later one behind a comma. -/
theorem nextKey_cases {first : Bool} {c c₁ : Cursor} {key? : Option String}
    (h : nextKey first c = .ok (key?, c₁)) :
    (key? = none ∧ c₁ = c.skipBlanks ∧ ∃ rest, c.skipBlanks.rest = '\x7d' :: rest) ∨
      (first = true ∧ ∃ key rest, key? = some key ∧ c.skipBlanks.rest = '"' :: rest ∧
        string ⟨c.skipBlanks.position.skip 1, rest⟩ = .ok (key, c₁)) ∨
      (first = false ∧ ∃ key rest rest', key? = some key ∧ c.skipBlanks.rest = ',' :: rest ∧
        (Cursor.mk (c.skipBlanks.position.skip 1) rest).skipBlanks.rest = '"' :: rest' ∧
        string ⟨(Cursor.mk (c.skipBlanks.position.skip 1) rest).skipBlanks.position.skip 1, rest'⟩ =
          .ok (key, c₁)) := by
  unfold nextKey at h
  dsimp only at h
  split at h
  · cases h
  · rename_i rest last
    cases h
    exact .inl ⟨rfl, rfl, rest, last⟩
  · rename_i ch rest _ start
    split at h
    · rename_i isFirst
      split at h
      · rename_i quote
        subst quote
        split at h
        · cases h
        · rename_i key c' read
          cases h
          exact .inr (.inl ⟨isFirst, key, rest, rfl, start, read⟩)
      · cases h
    · rename_i notFirst
      split at h
      · rename_i comma
        subst comma
        split at h
        · cases h
        · rename_i rest' quote
          split at h
          · cases h
          · rename_i key c' read
            cases h
            exact .inr (.inr ⟨Bool.eq_false_iff.2 notFirst, key, rest, rest', rfl, start, quote,
              read⟩)
        · cases h
        · cases h
      · cases h

/-- What there is to the next element of an array: none before the closing bracket, a first one
where it stands, or a later one behind a comma. -/
theorem nextElement_cases {first more : Bool} {c c₁ : Cursor}
    (h : nextElement first c = .ok (more, c₁)) :
    (more = false ∧ c₁ = c.skipBlanks ∧ ∃ rest, c.skipBlanks.rest = ']' :: rest) ∨
      (more = true ∧ first = true ∧ c₁ = c.skipBlanks ∧
        ∃ ch rest, c.skipBlanks.rest = ch :: rest ∧ ch ≠ ']') ∨
      (more = true ∧ first = false ∧ ∃ rest, c.skipBlanks.rest = ',' :: rest ∧
        c₁ = (Cursor.mk (c.skipBlanks.position.skip 1) rest).skipBlanks) := by
  unfold nextElement at h
  dsimp only at h
  split at h
  · cases h
  · rename_i rest last
    cases h
    exact .inl ⟨rfl, rfl, rest, last⟩
  · rename_i ch rest notLast start
    split at h
    · rename_i isFirst
      cases h
      exact .inr (.inl ⟨rfl, isFirst, rfl, ch, rest, start, notLast⟩)
    · rename_i notFirst
      split at h
      · rename_i comma
        subst comma
        split at h
        · cases h
        · cases h
        · cases h
          exact .inr (.inr ⟨rfl, Bool.eq_false_iff.2 notFirst, rest, start, rfl⟩)
      · cases h

/-- An object is closed by a brace. -/
theorem closeObject_of_rest {c : Cursor} {rest : List Char}
    (last : c.skipBlanks.rest = '\x7d' :: rest) :
    closeObject c = .ok ⟨c.skipBlanks.position.skip 1, rest⟩ := by
  simp only [closeObject, last]

/-- An array is closed by a bracket. -/
theorem closeArray_of_rest {c : Cursor} {rest : List Char}
    (last : c.skipBlanks.rest = ']' :: rest) :
    closeArray c = .ok ⟨c.skipBlanks.position.skip 1, rest⟩ := by
  simp only [closeArray, last]

end TypeCatalog.Json
