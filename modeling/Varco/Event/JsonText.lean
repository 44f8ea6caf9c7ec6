import Mathlib.Algebra.Order.Ring.Rat
import Mathlib.Tactic.FinCases
import Varco.Event.Serializer

/-!
# The text of a JSON document

`json.dumps(value, sort_keys=True, separators=(",", ":"))`, in ASCII as by default. Two documents
have the same text only if they are the same up to the order of the fields of their objects
(`dumps_inj`): what follows a value in a text begins with a delimiter, which ends a number, and the
other values end themselves.
-/

namespace Varco

open List

namespace Json

/-! ## Strings -/

def quoteMark : Char := Char.ofNat 34

def backslash : Char := Char.ofNat 92

def hex4 (n : ℕ) : List Char :=
  [Nat.digitChar (n / 4096 % 16), Nat.digitChar (n / 256 % 16), Nat.digitChar (n / 16 % 16),
    Nat.digitChar (n % 16)]

def escapeUnit (n : ℕ) : List Char := backslash :: 'u' :: hex4 n

/-- A character of a string: in ASCII, and escaped where it has to be. -/
def escapeChar (c : Char) : List Char :=
  if c = quoteMark ∨ c = backslash then [backslash, c]
  else if c.toNat = 8 then [backslash, 'b']
  else if c.toNat = 9 then [backslash, 't']
  else if c.toNat = 10 then [backslash, 'n']
  else if c.toNat = 12 then [backslash, 'f']
  else if c.toNat = 13 then [backslash, 'r']
  else if 0x20 ≤ c.toNat ∧ c.toNat ≤ 0x7e then [c]
  else if c.toNat < 0x10000 then escapeUnit c.toNat
  else escapeUnit (0xd800 + (c.toNat - 0x10000) / 1024) ++
    escapeUnit (0xdc00 + (c.toNat - 0x10000) % 1024)

def hexValue (c : Char) : ℕ := if c.toNat < 58 then c.toNat - 48 else c.toNat - 87

def readUnit : List Char → Option (ℕ × List Char)
  | a :: b :: c :: d :: rest =>
    some (hexValue a * 4096 + hexValue b * 256 + hexValue c * 16 + hexValue d, rest)
  | _ => none

def shortEscape (c : Char) : Char :=
  if c = 'b' then Char.ofNat 8 else if c = 't' then Char.ofNat 9 else if c = 'n' then Char.ofNat 10
  else if c = 'f' then Char.ofNat 12 else if c = 'r' then Char.ofNat 13 else c

/-- The character at the beginning of a text, of which each is written in one way only. -/
def readChar : List Char → Option (Char × List Char)
  | [] => none
  | c :: rest =>
    if c ≠ backslash then some (c, rest)
    else
      match rest with
      | [] => none
      | d :: rest =>
        if d ≠ 'u' then some (shortEscape d, rest)
        else
          match readUnit rest with
          | none => none
          | some (n, rest) =>
            if 0xd800 ≤ n ∧ n < 0xdc00 then
              match readUnit (rest.drop 2) with
              | none => none
              | some (m, rest) =>
                some (Char.ofNat (0x10000 + (n - 0xd800) * 1024 + (m - 0xdc00)), rest)
            else some (Char.ofNat n, rest)

variable {n : ℕ}

theorem hexValue_digitChar (h : n < 16) : hexValue (Nat.digitChar n) = n := by
  have hall : ∀ k < 16, hexValue (Nat.digitChar k) = k := by decide +kernel
  exact hall n h

theorem readUnit_hex4 (h : n < 0x10000) (rest : List Char) :
    readUnit (hex4 n ++ rest) = some (n, rest) := by
  change some (_, rest) = _
  rw [hexValue_digitChar (by omega), hexValue_digitChar (by omega), hexValue_digitChar (by omega),
    hexValue_digitChar (by omega)]
  congr 2
  omega

theorem toNat_lt (c : Char) : c.toNat < 0xd800 ∨ 0xdfff < c.toNat ∧ c.toNat < 0x110000 := by
  have h := c.valid
  rcases h with h | ⟨h₁, h₂⟩
  · exact .inl h
  · exact .inr ⟨h₁, h₂⟩

variable {c : Char}

theorem eq_ofNat (h : c.toNat = n) : c = Char.ofNat n := by
  rw [← h, Char.ofNat_toNat]

theorem readChar_plain (h : c ≠ backslash) (rest : List Char) :
    readChar (c :: rest) = some (c, rest) := by
  unfold readChar
  exact if_pos h

theorem readChar_short (h : c ≠ 'u') (rest : List Char) :
    readChar (backslash :: c :: rest) = some (shortEscape c, rest) := by
  unfold readChar
  dsimp only
  rw [if_neg (not_not.mpr rfl)]
  exact if_pos h

theorem readChar_unit (h : n < 0xd800 ∨ 0xdfff < n ∧ n < 0x10000) (rest : List Char) :
    readChar (escapeUnit n ++ rest) = some (Char.ofNat n, rest) := by
  change readChar (backslash :: 'u' :: (hex4 n ++ rest)) = _
  unfold readChar
  dsimp only
  rw [if_neg (not_not.mpr rfl), if_neg (not_not.mpr rfl), readUnit_hex4 (by omega)]
  exact if_neg (by omega)

theorem readChar_pair {m : ℕ} (hn : n < 0x400) (hm : m < 0x400) (rest : List Char) :
    readChar (escapeUnit (0xd800 + n) ++ escapeUnit (0xdc00 + m) ++ rest) =
      some (Char.ofNat (0x10000 + n * 1024 + m), rest) := by
  have hsecond : readUnit ((escapeUnit (0xdc00 + m) ++ rest).drop 2) = some (0xdc00 + m, rest) :=
    readUnit_hex4 (by omega) rest
  rw [append_assoc]
  change readChar (backslash :: 'u' :: (hex4 (0xd800 + n) ++ (escapeUnit (0xdc00 + m) ++ rest))) = _
  unfold readChar
  dsimp only
  rw [if_neg (not_not.mpr rfl), if_neg (not_not.mpr rfl), readUnit_hex4 (by omega)]
  dsimp only
  rw [if_pos (by omega), hsecond]
  dsimp only
  rw [Nat.add_sub_cancel_left, Nat.add_sub_cancel_left]

theorem readChar_escapeChar (c : Char) (rest : List Char) :
    readChar (escapeChar c ++ rest) = some (c, rest) := by
  unfold escapeChar
  split_ifs with hself hb ht hn hf hr hplain hunit
  · rcases hself with rfl | rfl <;> exact readChar_short (by decide) rest
  · rw [eq_ofNat hb]
    exact readChar_short (by decide) rest
  · rw [eq_ofNat ht]
    exact readChar_short (by decide) rest
  · rw [eq_ofNat hn]
    exact readChar_short (by decide) rest
  · rw [eq_ofNat hf]
    exact readChar_short (by decide) rest
  · rw [eq_ofNat hr]
    exact readChar_short (by decide) rest
  · exact readChar_plain (fun h => hself (.inr h)) rest
  · have hc := toNat_lt c
    rw [readChar_unit (by omega), Char.ofNat_toNat]
  · have hc := toNat_lt c
    have hsum : 0x10000 + (c.toNat - 0x10000) / 1024 * 1024 + (c.toNat - 0x10000) % 1024 =
        c.toNat := by omega
    rw [readChar_pair (by omega) (by omega), hsum, Char.ofNat_toNat]

/-- A character that is written begins with no quotation mark. -/
theorem escapeChar_ne_quote (c : Char) (rest rest' : List Char) :
    escapeChar c ++ rest ≠ quoteMark :: rest' := by
  unfold escapeChar
  split_ifs with hself
  all_goals
    intro h
    have hhead := (List.cons.inj h).1
    first | exact absurd hhead (by decide) | exact hself (.inl hhead)

/-- `"..."` -/
def quoted (s : List Char) : List Char := quoteMark :: (s.flatMap escapeChar ++ [quoteMark])

theorem escaped_inj {s s' t t' : List Char}
    (h : s.flatMap escapeChar ++ quoteMark :: t = s'.flatMap escapeChar ++ quoteMark :: t') :
    s = s' ∧ t = t' := by
  induction s generalizing s' with
  | nil =>
    cases s' with
    | nil => exact ⟨rfl, (List.cons.inj h).2⟩
    | cons c s' =>
      rw [flatMap_cons, append_assoc] at h
      exact absurd h.symm (escapeChar_ne_quote c _ _)
  | cons c s ih =>
    rw [flatMap_cons, append_assoc] at h
    cases s' with
    | nil => exact absurd h (escapeChar_ne_quote c _ _)
    | cons d s' =>
      rw [flatMap_cons, append_assoc] at h
      have hread := congrArg readChar h
      rw [readChar_escapeChar, readChar_escapeChar] at hread
      obtain ⟨rfl, hrest⟩ := Prod.mk.inj (Option.some.inj hread)
      obtain ⟨rfl, rfl⟩ := ih hrest
      exact ⟨rfl, rfl⟩

/-! ## Numbers -/

def isDelimiter (c : Char) : Bool := [',', ':', ']', '\x7d'].contains c

def Delimited (s : List Char) : Prop := ∀ c ∈ s.head?, isDelimiter c = true

/-- Texts without delimiters end where the delimiters begin. -/
theorem undelimited_inj {x x' s s' : List Char} (hx : ∀ c ∈ x, isDelimiter c = false)
    (hx' : ∀ c ∈ x', isDelimiter c = false) (hs : Delimited s) (hs' : Delimited s')
    (h : x ++ s = x' ++ s') : x = x' ∧ s = s' := by
  induction x generalizing x' with
  | nil =>
    cases x' with
    | nil => exact ⟨rfl, h⟩
    | cons c x' =>
      rw [nil_append] at h
      have hc := hs c (by rw [h]; rfl)
      rw [hx' c mem_cons_self] at hc
      cases hc
  | cons c x ih =>
    cases x' with
    | nil =>
      rw [nil_append] at h
      have hc := hs' c (by rw [← h]; rfl)
      rw [hx c mem_cons_self] at hc
      cases hc
    | cons d x' =>
      obtain ⟨rfl, hrest⟩ := List.cons.inj h
      obtain ⟨rfl, rfl⟩ := ih (fun c hc => hx c (mem_cons_of_mem _ hc))
        (fun c hc => hx' c (mem_cons_of_mem _ hc)) hrest
      exact ⟨rfl, rfl⟩

/-- The characters of a number: those of a `float` besides digits. -/
def isNumberChar (c : Char) : Bool := c.isDigit || ['-', '+', '.', 'e'].contains c

theorem toDigits_inj {m : ℕ} (h : Nat.toDigits 10 m = Nat.toDigits 10 n) : m = n := by
  rw [← @Nat.ofDigitChars_ten_toDigits m, h, Nat.ofDigitChars_ten_toDigits]

/-- `repr(n)`, in decimal. -/
def intText (n : ℤ) : List Char :=
  if n < 0 then '-' :: Nat.toDigits 10 n.natAbs else Nat.toDigits 10 n.natAbs

theorem digits_of_mem (h : c ∈ Nat.toDigits 10 n) : c.isDigit = true :=
  Nat.isDigit_of_mem_toDigits (by decide) (by decide) h

theorem minus_notMem_digits {l : List Char} : '-' :: l ≠ Nat.toDigits 10 n := by
  intro h
  have hdigit : ('-' : Char).isDigit = true := digits_of_mem (n := n) (h ▸ mem_cons_self)
  exact absurd hdigit (by decide)

theorem intText_inj {m n : ℤ} (h : intText m = intText n) : m = n := by
  unfold intText at h
  split_ifs at h with hm hn hn
  · have habs := toDigits_inj (List.cons.inj h).2
    omega
  · exact absurd h minus_notMem_digits
  · exact absurd h.symm minus_notMem_digits
  · have habs := toDigits_inj h
    omega

theorem isNumberChar_of_mem_intText {n : ℤ} (h : c ∈ intText n) :
    isNumberChar c = true := by
  unfold intText at h
  unfold isNumberChar
  split_ifs at h
  · rcases mem_cons.mp h with rfl | hc
    · rfl
    · rw [digits_of_mem hc, Bool.true_or]
  · rw [digits_of_mem h, Bool.true_or]

theorem isDelimiter_of_isNumberChar (h : isNumberChar c = true) :
    isDelimiter c = false := by
  by_contra hdelim
  rw [Bool.not_eq_false, isDelimiter, contains_iff_mem] at hdelim
  fin_cases hdelim <;> exact absurd h (by decide)

/-- The number that `float(text)` makes of digits with a point, an exponent or both. -/
def floatValue (text : List Char) : Option ℚ :=
  let sign : ℚ := if text.head? = some '-' then -1 else 1
  let unsigned := text.dropWhile (· = '-')
  let mantissa := unsigned.takeWhile (· ≠ 'e')
  let exponent := (unsigned.dropWhile (· ≠ 'e')).drop 1
  let whole := mantissa.takeWhile (· ≠ '.')
  let decimals := (mantissa.dropWhile (· ≠ '.')).drop 1
  let scale : ℤ := (if exponent.head? = some '-' then -1 else 1) *
    Nat.ofDigitChars 10 (exponent.filter (·.isDigit)) 0 - decimals.length
  if whole ≠ [] ∧ (whole ++ decimals).all (·.isDigit) then
    some (sign * Nat.ofDigitChars 10 (whole ++ decimals) 0 * (10 : ℚ) ^ scale)
  else none

/-- The text of a finite `float`: it reads as the value, in the characters of a number, and is not
that of an integer. -/
structure FloatText (x : PyFloat) : Prop where
  reads : floatValue x.repr.toList = some x.val
  chars : ∀ c ∈ x.repr.toList, isNumberChar c = true
  point : '.' ∈ x.repr.toList ∨ 'e' ∈ x.repr.toList

/-! ## Documents -/

mutual

/-- `json.dumps(value, separators=(",", ":"))`, in the order of the fields. -/
def text : Json → List Char
  | .null => "null".toList
  | .bool b => (if b then "true" else "false").toList
  | .int n => intText n
  | .float x => x.repr.toList
  | .str s => quoted s.toList
  | .arr [] => ['[', ']']
  | .arr (value :: values) => '[' :: (value.text ++ itemsText values)
  | .obj [] => ['\x7b', '\x7d']
  | .obj ((key, value) :: fields) =>
    '\x7b' :: (quoted key.toList ++ ':' :: (value.text ++ fieldsText fields))

def itemsText : List Json → List Char
  | [] => [']']
  | value :: values => ',' :: (value.text ++ itemsText values)

def fieldsText : List (String × Json) → List Char
  | [] => ['\x7d']
  | (key, value) :: fields =>
    ',' :: (quoted key.toList ++ ':' :: (value.text ++ fieldsText fields))

end

mutual

def Genuine : Json → Prop
  | .float x => FloatText x
  | .arr values => GenuineItems values
  | .obj fields => GenuineFields fields
  | _ => True

/-- `Genuine`, of the items of a list. -/
def GenuineItems : List Json → Prop
  | [] => True
  | value :: values => value.Genuine ∧ GenuineItems values

/-- `Genuine`, of the fields of an object. -/
def GenuineFields : List (String × Json) → Prop
  | [] => True
  | (_, value) :: fields => value.Genuine ∧ GenuineFields fields

end

/-- The text of a value that holds no other: neither a string nor a list nor an object. -/
def atom? : Json → Option (List Char)
  | .null => some "null".toList
  | .bool b => some (if b then "true" else "false").toList
  | .int n => some (intText n)
  | .float x => some x.repr.toList
  | _ => none

theorem delimited_itemsText (l : List Json) (s : List Char) : Delimited (itemsText l ++ s) := by
  cases l <;> simp [itemsText, Delimited, isDelimiter]

theorem delimited_fieldsText (l : List (String × Json)) (s : List Char) :
    Delimited (fieldsText l ++ s) := by
  cases l with
  | nil => simp [fieldsText, Delimited, isDelimiter]
  | cons p l =>
    obtain ⟨key, value⟩ := p
    simp [fieldsText, Delimited, isDelimiter]

/-- The characters of strings, lists and objects, and the delimiters. -/
def isStructural (c : Char) : Bool := isDelimiter c || [quoteMark, '[', '\x7b'].contains c

theorem isStructural_of_isNumberChar {c : Char} (h : isNumberChar c = true) :
    isStructural c = false := by
  rw [isStructural, isDelimiter_of_isNumberChar h, Bool.false_or]
  by_contra hopens
  rw [Bool.not_eq_false, contains_iff_mem] at hopens
  fin_cases hopens <;> exact absurd h (by decide)

variable {v : Json} {x : List Char}

theorem not_structural_of_atom (hv : v.Genuine)
    (h : v.atom? = some x) : ∀ c ∈ x, isStructural c = false := by
  have hkeyword : ∀ l : List Char, l.all (fun c => !isStructural c) = true →
      ∀ c ∈ l, isStructural c = false := fun l hl c hc => by
    have hnot := all_eq_true.mp hl c hc
    rwa [Bool.not_eq_true'] at hnot
  cases v with
  | null =>
    cases h
    exact hkeyword _ (by decide +kernel)
  | bool b =>
    cases h
    cases b
    · exact hkeyword _ (by decide +kernel)
    · exact hkeyword _ (by decide +kernel)
  | int n =>
    cases h
    exact fun c hc => isStructural_of_isNumberChar (isNumberChar_of_mem_intText hc)
  | float x =>
    cases h
    exact fun c hc => isStructural_of_isNumberChar (hv.chars c hc)
  | str | arr | obj => cases h

theorem undelimited_of_atom (hv : v.Genuine) (h : v.atom? = some x) :
    ∀ c ∈ x, isDelimiter c = false := fun c hc =>
  (Bool.or_eq_false_iff.mp (not_structural_of_atom hv h c hc)).1

theorem text_of_atom (h : v.atom? = some x) : v.text = x := by
  cases v with
  | null | bool | int | float => exact Option.some.inj h
  | str | arr | obj => cases h

theorem intText_ne_nil (n : ℤ) : intText n ≠ [] := by
  unfold intText
  split_ifs
  · exact cons_ne_nil _ _
  · exact Nat.toDigits_ne_nil

theorem atom_ne_nil (hv : v.Genuine) (h : v.atom? = some x) : x ≠ [] := by
  cases v with
  | null => cases h; decide +kernel
  | bool b => cases h; cases b <;> decide +kernel
  | int n =>
    cases h
    exact intText_ne_nil n
  | float x =>
    cases h
    intro hnil
    rcases hv.point with hc | hc <;> exact absurd (hnil ▸ hc) not_mem_nil
  | str | arr | obj => cases h

theorem point_notMem_intText {n : ℤ} : '.' ∉ intText n ∧ 'e' ∉ intText n := by
  have hall : ∀ c ∈ intText n, c.isDigit = true ∨ c = '-' := by
    intro c hc
    unfold intText at hc
    split_ifs at hc
    · rcases mem_cons.mp hc with rfl | hc
      · exact .inr rfl
      · exact .inl (digits_of_mem hc)
    · exact .inl (digits_of_mem hc)
  exact ⟨fun h => absurd (hall _ h) (by decide), fun h => absurd (hall _ h) (by decide)⟩

/-- `null`, `true` or `false`. -/
def IsKeyword (x : List Char) : Prop :=
  x = "null".toList ∨ x = "true".toList ∨ x = "false".toList

theorem not_isKeyword (h : ∀ c ∈ x, isNumberChar c = true) : ¬ IsKeyword x := by
  rintro (rfl | rfl | rfl)
  · exact absurd (h 'n' (by decide +kernel)) (by decide)
  · exact absurd (h 't' (by decide +kernel)) (by decide)
  · exact absurd (h 'f' (by decide +kernel)) (by decide)

theorem keyword_or_number (hv : v.Genuine) (h : v.atom? = some x) :
    (IsKeyword x ∧ (v = .null ∨ ∃ b, v = .bool b)) ∨
      (¬ IsKeyword x ∧ ((∃ n, v = .int n) ∨ ∃ y, v = .float y)) := by
  cases v with
  | null =>
    cases h
    exact .inl ⟨.inl rfl, .inl rfl⟩
  | bool b =>
    cases h
    refine .inl ⟨.inr ?_, .inr ⟨b, rfl⟩⟩
    cases b
    · exact .inr rfl
    · exact .inl rfl
  | int n =>
    cases h
    exact .inr ⟨not_isKeyword fun c hc => isNumberChar_of_mem_intText hc, .inl ⟨n, rfl⟩⟩
  | float y =>
    cases h
    exact .inr ⟨not_isKeyword hv.chars, .inr ⟨y, rfl⟩⟩
  | str | arr | obj => cases h

theorem int_ne_float {n : ℤ} {y : PyFloat} (hy : FloatText y) : y.repr.toList ≠ intText n := by
  intro h
  have hpoint := hy.point
  rw [h] at hpoint
  exact hpoint.elim point_notMem_intText.1 point_notMem_intText.2

theorem float_inj {y z : PyFloat} (hy : FloatText y) (hz : FloatText z)
    (h : y.repr.toList = z.repr.toList) : y = z := by
  have hreads := hy.reads
  rw [h, hz.reads] at hreads
  obtain ⟨val, repr⟩ := y
  obtain ⟨val', repr'⟩ := z
  cases hreads
  cases String.toList_inj.mp h
  rfl

theorem atom_inj {v w : Json} (hv : v.Genuine) (hw : w.Genuine)
    (h : v.atom? = some x) (h' : w.atom? = some x) : v = w := by
  rcases keyword_or_number hv h with ⟨hx, hkind⟩ | ⟨hx, hkind⟩ <;>
    rcases keyword_or_number hw h' with ⟨hx', hkind'⟩ | ⟨hx', hkind'⟩
  · rcases hkind with rfl | ⟨b, rfl⟩ <;> rcases hkind' with rfl | ⟨b', rfl⟩ <;> cases h
    · rfl
    · cases b' <;> exact absurd h' (by decide)
    · cases b <;> exact absurd h' (by decide)
    · cases b <;> cases b' <;> first | rfl | exact absurd h' (by decide)
  · exact absurd hx hx'
  · exact absurd hx' hx
  · rcases hkind with ⟨n, rfl⟩ | ⟨y, rfl⟩ <;> rcases hkind' with ⟨m, rfl⟩ | ⟨z, rfl⟩ <;> cases h
    · rw [intText_inj (Option.some.inj h')]
    · exact absurd (Option.some.inj h') (int_ne_float hw)
    · exact absurd (Option.some.inj h').symm (int_ne_float hv)
    · rw [float_inj hv hw (Option.some.inj h').symm]

/-- What is no atom begins with a character of its own. -/
theorem text_of_no_atom (h : v.atom? = none) :
    ∃ c rest, v.text = c :: rest ∧ isStructural c = true ∧ isDelimiter c = false := by
  cases v with
  | null | bool | int | float => cases h
  | str s => exact ⟨quoteMark, _, rfl, rfl, rfl⟩
  | arr values =>
    cases values with
    | nil => exact ⟨'[', _, rfl, rfl, rfl⟩
    | cons value values => exact ⟨'[', _, rfl, rfl, rfl⟩
  | obj fields =>
    cases fields with
    | nil => exact ⟨'\x7b', _, rfl, rfl, rfl⟩
    | cons p fields => exact ⟨'\x7b', _, rfl, rfl, rfl⟩

variable {s s' : List Char}

theorem text_ne_delimiter (hv : v.Genuine) {d : Char} (hd : isDelimiter d = true)
    : v.text ++ s ≠ d :: s' := by
  intro h
  cases hatom : v.atom? with
  | none =>
    obtain ⟨c, rest, htext, -, hc⟩ := text_of_no_atom hatom
    rw [htext] at h
    rw [(List.cons.inj h).1, hd] at hc
    cases hc
  | some x =>
    rw [text_of_atom hatom] at h
    obtain ⟨c, rest, rfl⟩ := exists_cons_of_ne_nil (atom_ne_nil hv hatom)
    have hc := undelimited_of_atom hv hatom c mem_cons_self
    rw [(List.cons.inj h).1, hd] at hc
    cases hc

/-- An atom's text is no beginning of the text of what is none. -/
theorem atom_text_ne {v w : Json} (hv : v.Genuine) (hx : v.atom? = some x)
    (hw : w.atom? = none) : v.text ++ s ≠ w.text ++ s' := by
  intro h
  obtain ⟨c, rest, htext, hc, -⟩ := text_of_no_atom hw
  rw [text_of_atom hx, htext] at h
  obtain ⟨d, rest', rfl⟩ := exists_cons_of_ne_nil (atom_ne_nil hv hx)
  have hd := not_structural_of_atom hv hx d mem_cons_self
  rw [(List.cons.inj h).1, hc] at hd
  cases hd

theorem atom_text_inj {v w : Json} (hv : v.Genuine) (hw : w.Genuine)
    (hx : v.atom? = some x) (hs : Delimited s) (hs' : Delimited s')
    (h : v.text ++ s = w.text ++ s') : v = w ∧ s = s' := by
  cases hx' : w.atom? with
  | none => exact absurd h (atom_text_ne hv hx hx')
  | some x' =>
    rw [text_of_atom hx, text_of_atom hx'] at h
    obtain ⟨rfl, rfl⟩ := undelimited_inj (undelimited_of_atom hv hx) (undelimited_of_atom hw hx')
      hs hs' h
    exact ⟨atom_inj hv hw hx hx', rfl⟩

theorem quoted_inj {a b : String}
    (h : quoted a.toList ++ s = quoted b.toList ++ s') : a = b ∧ s = s' := by
  unfold quoted at h
  rw [cons_append, cons_append, append_assoc, append_assoc] at h
  obtain ⟨hab, hs⟩ := escaped_inj (List.cons.inj h).2
  exact ⟨String.toList_inj.mp hab, hs⟩

mutual

/-- **A value is read off its text**, where a delimiter follows or nothing. -/
theorem text_inj : ∀ (v w : Json) {s s' : List Char}, v.Genuine → w.Genuine → Delimited s →
    Delimited s' → v.text ++ s = w.text ++ s' → v = w ∧ s = s'
  | .null, _, _, _, hv, hw, hs, hs', h | .bool _, _, _, _, hv, hw, hs, hs', h
  | .int _, _, _, _, hv, hw, hs, hs', h | .float _, _, _, _, hv, hw, hs, hs', h =>
    atom_text_inj hv hw rfl hs hs' h
  | .str a, w, s, s', hv, hw, hs, hs', h => by
    cases w with
    | null | bool | int | float => exact absurd h.symm (atom_text_ne hw rfl rfl)
    | str b =>
      obtain ⟨rfl, rfl⟩ := quoted_inj h
      exact ⟨rfl, rfl⟩
    | arr values => cases values <;> exact absurd (List.cons.inj h).1 (by decide)
    | obj fields => cases fields <;> exact absurd (List.cons.inj h).1 (by decide)
  | .arr values, w, s, s', hv, hw, hs, hs', h => by
    cases w with
    | null | bool | int | float => exact absurd h.symm (atom_text_ne hw rfl rfl)
    | str b => cases values <;> exact absurd (List.cons.inj h).1 (by decide)
    | arr values' =>
      cases values with
      | nil =>
        cases values' with
        | nil => exact ⟨rfl, (List.cons.inj (List.cons.inj h).2).2⟩
        | cons w l' =>
          have hrest : ']' :: s = (w.text ++ itemsText l') ++ s' := (List.cons.inj h).2
          rw [append_assoc] at hrest
          exact absurd hrest.symm (text_ne_delimiter hw.1 (by decide))
      | cons v l =>
        cases values' with
        | nil =>
          have hrest : (v.text ++ itemsText l) ++ s = ']' :: s' := (List.cons.inj h).2
          rw [append_assoc] at hrest
          exact absurd hrest (text_ne_delimiter hv.1 (by decide))
        | cons w l' =>
          obtain ⟨hvalues, rfl⟩ := itemsText_inj (v :: l) (w :: l') hv hw
            (congrArg (',' :: ·) (List.cons.inj h).2)
          exact ⟨congrArg Json.arr hvalues, rfl⟩
    | obj fields =>
      cases values <;> cases fields <;> exact absurd (List.cons.inj h).1 (by decide)
  | .obj fields, w, s, s', hv, hw, hs, hs', h => by
    cases w with
    | null | bool | int | float => exact absurd h.symm (atom_text_ne hw rfl rfl)
    | str b => cases fields <;> exact absurd (List.cons.inj h).1 (by decide)
    | arr values =>
      cases fields <;> cases values <;> exact absurd (List.cons.inj h).1 (by decide)
    | obj fields' =>
      cases fields with
      | nil =>
        cases fields' with
        | nil => exact ⟨rfl, (List.cons.inj (List.cons.inj h).2).2⟩
        | cons p l' => exact absurd (List.cons.inj (List.cons.inj h).2).1 (by decide)
      | cons p l =>
        cases fields' with
        | nil => exact absurd (List.cons.inj (List.cons.inj h).2).1 (by decide)
        | cons p' l' =>
          obtain ⟨hfields, rfl⟩ := fieldsText_inj (p :: l) (p' :: l') hv hw
            (congrArg (',' :: ·) (List.cons.inj h).2)
          exact ⟨congrArg Json.obj hfields, rfl⟩

theorem itemsText_inj : ∀ (l l' : List Json) {s s' : List Char}, GenuineItems l →
    GenuineItems l' → itemsText l ++ s = itemsText l' ++ s' → l = l' ∧ s = s'
  | [], [], _, _, _, _, h => ⟨rfl, (List.cons.inj h).2⟩
  | [], _ :: _, _, _, _, _, h => absurd (List.cons.inj h).1 (by decide)
  | _ :: _, [], _, _, _, _, h => absurd (List.cons.inj h).1 (by decide)
  | v :: l, w :: l', s, s', hv, hw, h => by
    have hrest : v.text ++ itemsText l ++ s = w.text ++ itemsText l' ++ s' := (List.cons.inj h).2
    rw [append_assoc, append_assoc] at hrest
    obtain ⟨rfl, hitems⟩ := text_inj v w hv.1 hw.1 (delimited_itemsText l s)
      (delimited_itemsText l' s') hrest
    obtain ⟨rfl, rfl⟩ := itemsText_inj l l' hv.2 hw.2 hitems
    exact ⟨rfl, rfl⟩

theorem fieldsText_inj : ∀ (l l' : List (String × Json)) {s s' : List Char}, GenuineFields l →
    GenuineFields l' → fieldsText l ++ s = fieldsText l' ++ s' → l = l' ∧ s = s'
  | [], [], _, _, _, _, h => ⟨rfl, (List.cons.inj h).2⟩
  | [], (_, _) :: _, _, _, _, _, h => absurd (List.cons.inj h).1 (by decide)
  | (_, _) :: _, [], _, _, _, _, h => absurd (List.cons.inj h).1 (by decide)
  | (key, v) :: l, (key', w) :: l', s, s', hv, hw, h => by
    have hrest : quoted key.toList ++ ':' :: (v.text ++ fieldsText l) ++ s =
        quoted key'.toList ++ ':' :: (w.text ++ fieldsText l') ++ s' := (List.cons.inj h).2
    rw [append_assoc, append_assoc] at hrest
    obtain ⟨rfl, hvalue⟩ := quoted_inj hrest
    have hvalue' : v.text ++ fieldsText l ++ s = w.text ++ fieldsText l' ++ s' :=
      (List.cons.inj hvalue).2
    rw [append_assoc, append_assoc] at hvalue'
    obtain ⟨rfl, hfields⟩ := text_inj v w hv.1 hw.1 (delimited_fieldsText l s)
      (delimited_fieldsText l' s') hvalue'
    obtain ⟨rfl, rfl⟩ := fieldsText_inj l l' hv.2 hw.2 hfields
    exact ⟨rfl, rfl⟩

end

/-! ## Sorted keys -/

/-- The order of `sorted()` on the keys of items. -/
def keyLe (p q : String × Json) : Bool := decide (p.1 ≤ q.1)

mutual

/-- The document with the fields of every object sorted by their keys. -/
def sortKeys : Json → Json
  | .arr values => .arr (sortItems values)
  | .obj fields => .obj ((sortFields fields).mergeSort keyLe)
  | v => v

/-- `sortKeys`, of the items of a list. -/
def sortItems : List Json → List Json
  | [] => []
  | value :: values => value.sortKeys :: sortItems values

/-- `sortKeys`, of the values of the fields. -/
def sortFields : List (String × Json) → List (String × Json)
  | [] => []
  | (key, value) :: fields => (key, value.sortKeys) :: sortFields fields

end

/-- `json.dumps(value, sort_keys=True, separators=(",", ":"))` -/
def dumps (v : Json) : String := String.ofList v.sortKeys.text

theorem genuineFields_iff {l : List (String × Json)} :
    GenuineFields l ↔ ∀ p ∈ l, p.2.Genuine := by
  induction l with
  | nil => exact iff_of_true trivial fun _ h => absurd h not_mem_nil
  | cons p l ih =>
    obtain ⟨key, v⟩ := p
    rw [forall_mem_cons, ← ih]
    rfl

mutual

theorem genuine_sortKeys : ∀ (v : Json), v.Genuine → v.sortKeys.Genuine
  | .null, h | .bool _, h | .int _, h | .float _, h | .str _, h => h
  | .arr values, h => genuine_sortItems values h
  | .obj fields, h => by
    change GenuineFields ((sortFields fields).mergeSort keyLe)
    have hsorted := genuine_sortFields fields h
    rw [genuineFields_iff] at hsorted ⊢
    exact fun p hp => hsorted p ((mergeSort_perm _ _).mem_iff.mp hp)

theorem genuine_sortItems : ∀ (l : List Json), GenuineItems l → GenuineItems (sortItems l)
  | [], h => h
  | v :: l, h => ⟨genuine_sortKeys v h.1, genuine_sortItems l h.2⟩

theorem genuine_sortFields : ∀ (l : List (String × Json)), GenuineFields l →
    GenuineFields (sortFields l)
  | [], h => h
  | (_, v) :: l, h => ⟨genuine_sortKeys v h.1, genuine_sortFields l h.2⟩

end

/-- **Documents with the same text are the same** up to the order of fields. -/
theorem dumps_inj {v w : Json} (hv : v.Genuine) (hw : w.Genuine) (h : v.dumps = w.dumps) :
    v.sortKeys = w.sortKeys := by
  have htext : v.sortKeys.text ++ [] = w.sortKeys.text ++ [] := by
    rw [append_nil, append_nil]
    exact String.ofList_injective h
  have hnil : Delimited [] := fun _ hc => by cases hc
  exact (text_inj _ _ (genuine_sortKeys v hv) (genuine_sortKeys w hw) hnil hnil htext).1

end Json

end Varco
