import Clickstream.Python.Text

/-! The lexical structure of PostgreSQL: tokens that cover the text, and names whose parts are joined
by dots.  Comments are left out. -/

namespace Clickstream.Sql

open Python

/-! ### Character classes -/

def isSpace (c : Cp) : Bool := decide (c.val = 0x20 ∨ 9 ≤ c.val ∧ c.val ≤ 13)

def isLetter (c : Cp) : Bool :=
  decide (0x41 ≤ c.val ∧ c.val ≤ 0x5A ∨ 0x61 ≤ c.val ∧ c.val ≤ 0x7A)

def isIdentStart (c : Cp) : Bool := isLetter c || decide (c = chr '_' ∨ 0x80 ≤ c.val)

def isIdentCont (c : Cp) : Bool := isIdentStart c || isAsciiDigit c || decide (c = chr '$')

/-! ### Lengths of tokens -/

def quoteLength (q : Cp) : PyStr → Nat
  | [] => 0
  | [_] => 1
  | c :: d :: rest =>
    if c = q then if d = q then quoteLength q rest + 2 else 1 else quoteLength q (d :: rest) + 1

/-- The characters up to the closing quote and with it, in a string with backslash escapes. -/
def escapeLength : PyStr → Nat
  | [] => 0
  | [_] => 1
  | c :: d :: rest =>
    if c = chr '\\' then escapeLength rest + 2
    else if c = chr '\'' then if d = chr '\'' then escapeLength rest + 2 else 1
    else escapeLength (d :: rest) + 1

/-- The characters up to the first copy of `w` and with it. -/
def untilLength (w : PyStr) : PyStr → Nat
  | [] => 0
  | c :: rest => if w.isPrefixOf (c :: rest) then w.length else untilLength w rest + 1

def digitsLength (s : PyStr) : Nat := (s.takeWhile isAsciiDigit).length

/-- The fraction of a number; two dots are not part of one. -/
def fractionLength (s : PyStr) : Nat :=
  match s with
  | c :: rest =>
    if c = chr '.' ∧ rest.head? ≠ some (chr '.') then 1 + digitsLength rest else 0
  | [] => 0

def exponentLength (s : PyStr) : Nat :=
  match s with
  | e :: rest =>
    let sign := if rest.head? = some (chr '+') ∨ rest.head? = some (chr '-') then 1 else 0
    let digits := digitsLength (rest.drop sign)
    if (e = chr 'e' ∨ e = chr 'E') ∧ 0 < digits then 1 + sign + digits else 0
  | [] => 0

/-- What follows the first digit of a number. -/
def numberLength (s : PyStr) : Nat :=
  let digits := digitsLength s
  let fraction := fractionLength (s.drop digits)
  digits + fraction + exponentLength (s.drop (digits + fraction))

/-- The rest of the delimiter of a string in dollars, behind its first dollar. -/
def dollarTag (s : PyStr) : Option PyStr :=
  let tag := s.takeWhile fun c => isIdentCont c && decide (c ≠ chr '$')
  if (s.drop tag.length).head? = some (chr '$') ∧ tag.head?.all isIdentStart then
    some (tag ++ [chr '$'])
  else none

/-- The length of the string that a text begins with, if there is one. -/
def stringLength : PyStr → Nat
  | [] => 0
  | c :: rest =>
    if c = chr '\'' then 1 + quoteLength (chr '\'') rest
    else if c ∈ lit "eE" ∧ rest.head? = some (chr '\'') then 2 + escapeLength rest.tail
    else if c = chr '$' then
      match dollarTag rest with
      | some tag => 1 + tag.length + untilLength (chr '$' :: tag) (rest.drop tag.length)
      | none => 0
    else 0

/-- The clause behind an identifier with Unicode escapes that names its escape character in a string:
the place of the string, and the string. -/
def escapeClause (s : PyStr) : Option (Nat × PyStr) :=
  let space := (s.takeWhile isSpace).length
  let word := (s.drop space).takeWhile isIdentCont
  let more := ((s.drop (space + word.length)).takeWhile isSpace).length
  let string := s.drop (space + word.length + more)
  if word.map asciiLower = lit "uescape" then
    some (space + word.length + more, string.take (stringLength string))
  else none

/-- An identifier with Unicode escapes, behind its opening quote, and its clause. -/
def escapedNameLength (s : PyStr) : Nat :=
  let quote := quoteLength (chr '"') s
  match escapeClause (s.drop quote) with
  | some (place, string) => quote + place + string.length
  | none => quote

/-! ### Tokens -/

/-- The kinds of tokens. A literal is a string, a number or a parameter. -/
inductive Kind where
  | space
  | word
  | quoted
  | literal
  | symbol
  deriving DecidableEq

structure Token where
  kind : Kind
  text : PyStr
  deriving DecidableEq

/-- The kind of the token that begins with `c`, and how many more characters it has. -/
def lexeme (c : Cp) (rest : PyStr) : Kind × Nat :=
  if isSpace c then (.space, (rest.takeWhile isSpace).length)
  else if rest.head? = some (chr '\'') ∧ c ∈ lit "eE" then (.literal, 1 + escapeLength rest.tail)
  else if rest.head? = some (chr '\'') ∧ c ∈ lit "bBxXnN" then
    (.literal, 1 + quoteLength (chr '\'') rest.tail)
  else if (lit "&\"").isPrefixOf rest ∧ c ∈ lit "uU" then
    (.quoted, 2 + escapedNameLength (rest.drop 2))
  else if isIdentStart c then (.word, (rest.takeWhile isIdentCont).length)
  else if c = chr '"' then (.quoted, quoteLength (chr '"') rest)
  else if c = chr '\'' then (.literal, quoteLength (chr '\'') rest)
  else if isAsciiDigit c then (.literal, numberLength rest)
  else if c = chr '.' ∧ rest.head?.any isAsciiDigit then
    (.literal, digitsLength rest + exponentLength (rest.drop (digitsLength rest)))
  else if c = chr '$' ∧ rest.head?.any isAsciiDigit then (.literal, digitsLength rest)
  else if c = chr '$' then
    match dollarTag rest with
    | some tag => (.literal, tag.length + untilLength (chr '$' :: tag) (rest.drop tag.length))
    | none => (.symbol, 0)
  else (.symbol, 0)

/-- The tokens of a text that is no longer than the fuel. -/
def tokensFrom : Nat → PyStr → List Token
  | 0, _ => []
  | _ + 1, [] => []
  | fuel + 1, c :: rest =>
    ⟨(lexeme c rest).1, c :: rest.take (lexeme c rest).2⟩ ::
      tokensFrom fuel (rest.drop (lexeme c rest).2)

def tokens (s : PyStr) : List Token := tokensFrom s.length s

theorem flatMap_tokensFrom {fuel : Nat} {s : PyStr} (h : s.length ≤ fuel) :
    (tokensFrom fuel s).flatMap Token.text = s := by
  induction fuel generalizing s with
  | zero =>
    rw [List.eq_nil_of_length_eq_zero (Nat.le_zero.mp h)]
    rfl
  | succ fuel ih =>
    cases s with
    | nil => rfl
    | cons c rest =>
      have hrest : (rest.drop (lexeme c rest).2).length ≤ fuel := by
        rw [List.length_cons] at h
        rw [List.length_drop]
        omega
      rw [tokensFrom, List.flatMap_cons, ih hrest, List.cons_append, List.take_append_drop]

theorem flatMap_tokens (s : PyStr) : (tokens s).flatMap Token.text = s :=
  flatMap_tokensFrom (le_refl _)

/-! ### Names -/

/-- A part of a name, as it is written. -/
structure Part where
  quoted : Bool
  text : PyStr
  deriving DecidableEq

/-- A quoted identifier without its quotes. -/
def unquote : PyStr → PyStr
  | [] => []
  | [c] => if c = chr '"' then [] else [c]
  | c :: d :: rest =>
    if c = chr '"' ∧ d = chr '"' then c :: unquote rest else c :: unquote (d :: rest)

/-- The character with these hexadecimal digits. -/
def hexCharacter (length : Nat) (digits : PyStr) : Option Cp :=
  let n := digits.foldl (fun n c => 16 * n + (hexValue c).getD 0) 0
  if h : digits.length = length ∧ (digits.all fun c => (hexValue c).isSome) = true ∧ n < 0x110000 then
    some ⟨n, h.2.2⟩
  else none

/-- The character of the Unicode escape that a text begins with, and the length of the escape. -/
def leadingEscape (mark : Cp) (s : PyStr) : Option (Cp × Nat) :=
  if s.head? ≠ some mark then none
  else if s.tail.head? = some mark then some (mark, 2)
  else if s.tail.head? = some (chr '+') then
    (hexCharacter 6 ((s.drop 2).take 6)).map fun d => (d, 8)
  else (hexCharacter 4 (s.tail.take 4)).map fun d => (d, 5)

/-- A text without its Unicode escapes, with `skip` characters of one still ahead. -/
def unescapeFrom (mark : Cp) : Nat → PyStr → PyStr
  | _, [] => []
  | skip + 1, _ :: rest => unescapeFrom mark skip rest
  | 0, c :: rest =>
    match leadingEscape mark (c :: rest) with
    | some (d, length) => d :: unescapeFrom mark (length - 1) rest
    | none => c :: unescapeFrom mark 0 rest

/-- What stands between the delimiters of a string. -/
def stringContent : PyStr → PyStr
  | [] => []
  | q :: rest =>
    if q = chr '\'' then rest.dropLast
    else if q = chr '$' then
      let tag := (dollarTag rest).getD []
      (rest.drop tag.length).take (rest.length - 2 * tag.length - 1)
    else rest.tail.dropLast

/-- The identifier of a name with Unicode escapes, behind its opening quote. Its clause has the escape
character between the delimiters of a string; with a clause of another form it stays as it is spelled. -/
def unescapedName (s : PyStr) : PyStr :=
  let quote := quoteLength (chr '"') s
  match escapeClause (s.drop quote) with
  | none => unescapeFrom (chr '\\') 0 (unquote (s.take quote))
  | some (_, string) =>
    match stringContent string with
    | [mark] => unescapeFrom mark 0 (unquote (s.take quote))
    | _ => s

/-- The identifier that a part spells: one without quotes is folded to lower case. -/
def Part.identifier (p : Part) : PyStr :=
  if p.quoted then
    if p.text.head? = some (chr '"') then unquote p.text.tail else unescapedName (p.text.drop 3)
  else p.text.map asciiLower

/-- The bytes of a character in UTF-8. -/
def byteLength (c : Cp) : Nat :=
  if c.val < 0x80 then 1 else if c.val < 0x800 then 2 else if c.val < 0x10000 then 3 else 4

/-- The characters of a text that lie within its first bytes. -/
def truncate : Nat → PyStr → PyStr
  | _, [] => []
  | bytes, c :: rest =>
    if byteLength c ≤ bytes then c :: truncate (bytes - byteLength c) rest else []

/-- The name that a part denotes: the first 63 bytes of the identifier. -/
def Part.name (p : Part) : PyStr := truncate 63 p.identifier

/-- A token, or a name: its first part, and the others with the separators in front of them. -/
inductive Item where
  | space (text : PyStr)
  | literal (text : PyStr)
  | symbol (text : PyStr)
  | name (first : Part) (more : List (PyStr × Part))
  deriving DecidableEq

def moreText (more : List (PyStr × Part)) : PyStr := more.flatMap fun q => q.1 ++ q.2.text

def Item.text : Item → PyStr
  | .space text | .literal text | .symbol text => text
  | .name first more => first.text ++ moreText more

def itemsText (items : List Item) : PyStr := items.flatMap Item.text

def takeSpace : List Item → PyStr × List Item
  | .space text :: rest => (text, rest)
  | rest => ([], rest)

/-- A part in front of what follows it: behind a dot it qualifies the name there. -/
def qualify (p : Part) (items : List Item) : List Item :=
  let (before, behindSpace) := takeSpace items
  match behindSpace with
  | .symbol dot :: rest =>
    let (after, behindDot) := takeSpace rest
    match behindDot with
    | .name first more :: rest =>
      if dot = lit "." then .name p ((before ++ dot ++ after, first) :: more) :: rest
      else .name p [] :: items
    | _ => .name p [] :: items
  | _ => .name p [] :: items

def attach (t : Token) (items : List Item) : List Item :=
  match t.kind with
  | .space => .space t.text :: items
  | .literal => .literal t.text :: items
  | .symbol => .symbol t.text :: items
  | .word => qualify ⟨false, t.text⟩ items
  | .quoted => qualify ⟨true, t.text⟩ items

def items (s : PyStr) : List Item := (tokens s).foldr attach []

theorem takeSpace_text (items : List Item) :
    (takeSpace items).1 ++ itemsText (takeSpace items).2 = itemsText items := by
  unfold takeSpace
  split <;> rfl

theorem qualify_text (p : Part) (items : List Item) :
    itemsText (qualify p items) = p.text ++ itemsText items := by
  have hsingle : itemsText (.name p [] :: items) = p.text ++ itemsText items := by
    simp [itemsText, Item.text, moreText]
  have hbefore := takeSpace_text items
  unfold qualify
  simp only
  split
  · rename_i dot rest heq
    have hafter := takeSpace_text rest
    split
    · rename_i first more behind heq'
      split
      · rw [heq'] at hafter
        have hdot : itemsText (.symbol dot :: rest) = dot ++ itemsText rest := rfl
        rw [← hbefore, heq, hdot, ← hafter]
        simp [itemsText, Item.text, moreText]
      · exact hsingle
    · exact hsingle
  · exact hsingle

theorem attach_text (t : Token) (items : List Item) :
    itemsText (attach t items) = t.text ++ itemsText items := by
  unfold attach
  cases t.kind with
  | space => rfl
  | literal => rfl
  | symbol => rfl
  | word => exact qualify_text ..
  | quoted => exact qualify_text ..

theorem qualify_head (p : Part) (items : List Item) :
    ∃ more rest, qualify p items = .name p more :: rest := by
  unfold qualify
  simp only
  split
  · split
    · split
      · exact ⟨_, _, rfl⟩
      · exact ⟨_, _, rfl⟩
    · exact ⟨_, _, rfl⟩
  · exact ⟨_, _, rfl⟩

/-- The items cover the text. -/
theorem itemsText_items (s : PyStr) : itemsText (items s) = s := by
  have hfold : ∀ ts : List Token, itemsText (ts.foldr attach []) = ts.flatMap Token.text := by
    intro ts
    induction ts with
    | nil => rfl
    | cons t ts ih => rw [List.foldr_cons, attach_text, ih, List.flatMap_cons]
  rw [items, hfold, flatMap_tokens]

theorem lexeme_letter {c : Cp} {rest : PyStr} (hc : isLetter c = true)
    (hquote : rest.head? ≠ some (chr '\'')) (hmark : rest.head? ≠ some (chr '&')) :
    lexeme c rest = (.word, (rest.takeWhile isIdentCont).length) := by
  have hspace : isSpace c = false := by
    simp only [isLetter, isSpace, decide_eq_true_eq, decide_eq_false_iff_not] at hc ⊢
    omega
  have hescapes : ¬lit "&\"" <+: rest := by
    rintro ⟨behind, rfl⟩
    exact hmark rfl
  rw [lexeme, hspace, isIdentStart, hc, Bool.true_or]
  simp [hquote, hescapes]

/-- A text that begins with a letter begins with the longest word that it has. -/
theorem items_letter {c : Cp} {rest : PyStr} (hc : isLetter c = true)
    (hquote : rest.head? ≠ some (chr '\'')) (hmark : rest.head? ≠ some (chr '&')) :
    ∃ more after, items (c :: rest) =
      .name ⟨false, c :: rest.takeWhile isIdentCont⟩ more :: after := by
  obtain ⟨more, after, h⟩ := qualify_head ⟨false, c :: rest.takeWhile isIdentCont⟩
    ((tokensFrom rest.length (rest.drop (rest.takeWhile isIdentCont).length)).foldr attach [])
  refine ⟨more, after, ?_⟩
  have htake := List.prefix_iff_eq_take.mp (List.takeWhile_prefix isIdentCont (l := rest))
  rw [← h, items, tokens, List.length_cons, tokensFrom, lexeme_letter hc hquote hmark]
  simp only [List.foldr_cons, ← htake]
  rfl

/-! ### White space -/

theorem fst_ite_ne {α β : Type} {p : Prop} [Decidable p] {a b : α × β} {x : α} (ha : a.1 ≠ x)
    (hb : b.1 ≠ x) : (if p then a else b).1 ≠ x := by
  split
  · exact ha
  · exact hb

theorem lexeme_space {c : Cp} {rest : PyStr} (h : (lexeme c rest).1 = .space) :
    isSpace c = true ∧ (lexeme c rest).2 = (rest.takeWhile isSpace).length := by
  cases hc : isSpace c with
  | true => exact ⟨rfl, by rw [lexeme, hc, if_pos rfl]⟩
  | false =>
    rw [lexeme, hc, if_neg Bool.false_ne_true] at h
    -- every other branch is of another kind
    have hliteral : Kind.literal ≠ .space := by decide
    have hword : Kind.word ≠ .space := by decide
    have hquoted : Kind.quoted ≠ .space := by decide
    have hsymbol : Kind.symbol ≠ .space := by decide
    refine absurd h (fst_ite_ne hliteral (fst_ite_ne hliteral (fst_ite_ne hquoted (fst_ite_ne hword
      (fst_ite_ne hquoted (fst_ite_ne hliteral (fst_ite_ne hliteral (fst_ite_ne hliteral
        (fst_ite_ne hliteral (fst_ite_ne ?_ hsymbol))))))))))
    cases dollarTag rest with
    | none => exact hsymbol
    | some tag => exact hliteral

theorem text_of_space_token {fuel : Nat} {s : PyStr} {t : Token} (ht : t ∈ tokensFrom fuel s)
    (hspace : t.kind = .space) : t.text ≠ [] ∧ ∀ c ∈ t.text, isSpace c = true := by
  induction fuel generalizing s with
  | zero => cases ht
  | succ fuel ih =>
    cases s with
    | nil => cases ht
    | cons c rest =>
      rw [tokensFrom] at ht
      rcases List.mem_cons.mp ht with heq | ht
      · rw [heq] at hspace ⊢
        obtain ⟨hc, hlength⟩ := lexeme_space hspace
        have htake := List.prefix_iff_eq_take.mp (List.takeWhile_prefix isSpace (l := rest))
        refine ⟨List.cons_ne_nil _ _, List.forall_mem_cons.mpr ⟨hc, fun x hx => ?_⟩⟩
        rw [hlength, ← htake] at hx
        exact List.mem_takeWhile_imp hx
      · exact ih ht

theorem mem_takeSpace {item : Item} {items : List Item} (h : item ∈ (takeSpace items).2) :
    item ∈ items := by
  unfold takeSpace at h
  split at h
  · exact List.mem_cons_of_mem _ h
  · exact h

theorem space_mem_qualify {p : Part} {items : List Item} {text : PyStr}
    (h : .space text ∈ qualify p items) : .space text ∈ items := by
  have hsingle : .space text ∈ .name p [] :: items → .space text ∈ items := by
    intro h
    rcases List.mem_cons.mp h with h | h
    · cases h
    · exact h
  unfold qualify at h
  simp only at h
  split at h
  · rename_i dot rest heq
    split at h
    · rename_i first more behind heq'
      split at h
      · rcases List.mem_cons.mp h with h | h
        · cases h
        · refine mem_takeSpace (heq ▸ List.mem_cons_of_mem _ (mem_takeSpace ?_))
          rw [heq']
          exact List.mem_cons_of_mem _ h
      · exact hsingle h
    · exact hsingle h
  · exact hsingle h

theorem space_mem_attach {t : Token} {items : List Item} {text : PyStr}
    (h : .space text ∈ attach t items) :
    t.kind = .space ∧ text = t.text ∨ .space text ∈ items := by
  unfold attach at h
  cases hkind : t.kind with
  | space =>
    rw [hkind] at h
    rcases List.mem_cons.mp h with heq | h
    · injection heq with heq
      exact .inl ⟨rfl, heq⟩
    · exact .inr h
  | literal | symbol =>
    rw [hkind] at h
    rcases List.mem_cons.mp h with heq | h
    · cases heq
    · exact .inr h
  | word | quoted =>
    rw [hkind] at h
    exact .inr (space_mem_qualify h)

/-- The white space between the items of a text is not empty. -/
theorem text_of_space_item {s text : PyStr} (h : .space text ∈ items s) :
    text ≠ [] ∧ ∀ c ∈ text, isSpace c = true := by
  have hfold : ∀ ts : List Token, (∀ t ∈ ts, t ∈ tokens s) → .space text ∈ ts.foldr attach [] →
      text ≠ [] ∧ ∀ c ∈ text, isSpace c = true := by
    intro ts hts hmem
    induction ts with
    | nil => cases hmem
    | cons t ts ih =>
      obtain ⟨ht, hts⟩ := List.forall_mem_cons.mp hts
      rcases space_mem_attach hmem with ⟨hkind, rfl⟩ | hmem
      · exact text_of_space_token ht hkind
      · exact ih hts hmem
  exact hfold (tokens s) (fun _ ht => ht) h

end Clickstream.Sql
