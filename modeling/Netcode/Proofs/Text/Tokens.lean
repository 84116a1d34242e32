import Mathlib
import Netcode.Proofs.Text.Utf8
import Netcode.Text.Info

set_option autoImplicit false

namespace Netcode

namespace Text

/-- A character a bare argument may hold anywhere: no separator, no double quote and no slash. -/
def Plain (c : Char) : Prop :=
  isSeparator c = false ∧ c ≠ '"' ∧ c ≠ '/'

instance (c : Char) : Decidable (Plain c) :=
  inferInstanceAs (Decidable (_ ∧ _))

section Tokenize

@[simp] theorem tokenizeChars_nil (fuel : Nat) : tokenizeChars fuel [] = [] := by
  cases fuel <;> rfl

theorem tokenizeChars_separator {c : Char} (separator : isSeparator c = true) (fuel : Nat)
    (rest : List Char) : tokenizeChars (fuel + 1) (c :: rest) = tokenizeChars (fuel + 1) rest := by
  simp only [tokenizeChars, List.dropWhile_cons, separator, if_true]

theorem bare_cons {c : Char} (notSlash : c ≠ '/') (rest : List Char) :
    bare (c :: rest) = if isSeparator c then ([], c :: rest, false)
      else (c :: (bare rest).1, (bare rest).2.1, (bare rest).2.2) := by
  rw [bare.eq_def]
  split
  · rename_i empty
    exact absurd empty (List.cons_ne_nil _ _)
  · rename_i slash
    exact absurd (List.cons.inj slash).1 notSlash
  · rename_i d more _ same
    obtain ⟨rfl, rfl⟩ := List.cons.inj same
    rfl

theorem bare_word (w : List Char) (plain : ∀ c ∈ w, Plain c) (rest : List Char)
    (ends : ∀ c ∈ rest.head?, isSeparator c = true) : bare (w ++ rest) = (w, rest, false) := by
  induction w with
  | nil =>
    match rest, ends with
    | [], _ => rfl
    | c :: more, ends =>
      have separator : isSeparator c = true := ends c rfl
      -- a separator is no slash, so no comment starts here
      have notSlash : c ≠ '/' := fun slash => by rw [slash] at separator; exact absurd separator (by decide)
      rw [List.nil_append, bare_cons notSlash, if_pos separator]
  | cons c w ih =>
    obtain ⟨notSeparator, -, notSlash⟩ := plain c (List.mem_cons_self ..)
    rw [List.cons_append, bare_cons notSlash, if_neg (by simp [notSeparator]),
      ih (fun d mem => plain d (List.mem_cons_of_mem c mem))]

theorem tokenizeChars_word (w : List Char) (nonempty : w ≠ []) (plain : ∀ c ∈ w, Plain c)
    (rest : List Char) (ends : ∀ c ∈ rest.head?, isSeparator c = true) (fuel : Nat) :
    tokenizeChars (fuel + 1) (w ++ rest) = String.ofList w :: tokenizeChars fuel rest := by
  obtain ⟨c, w', rfl⟩ := List.exists_cons_of_ne_nil nonempty
  obtain ⟨notSeparator, notQuote, -⟩ := plain c (List.mem_cons_self ..)
  have kept : (c :: w' ++ rest).dropWhile isSeparator = c :: w' ++ rest := by
    rw [List.cons_append, List.dropWhile_cons, if_neg (by simp [notSeparator])]
  rw [tokenizeChars, kept]
  split
  · rename_i empty
    exact absurd empty (List.cons_ne_nil _ _)
  · rename_i quote
    exact absurd (List.cons.inj quote).1 notQuote
  · rw [bare_word _ plain rest ends]
    rfl

theorem quoted_cons {c : Char} (notQuote : c ≠ '"') (rest : List Char) :
    quoted (c :: rest) = (c :: (quoted rest).1, (quoted rest).2) := by
  rw [quoted.eq_def]
  split
  · rename_i empty
    exact absurd empty (List.cons_ne_nil _ _)
  · rename_i quote
    exact absurd (List.cons.inj quote).1 notQuote
  · rename_i d more _ same
    obtain ⟨rfl, rfl⟩ := List.cons.inj same
    rfl

theorem quoted_append (q : List Char) (noQuote : '"' ∉ q) (rest : List Char) :
    quoted (q ++ '"' :: rest) = (q, rest) := by
  induction q with
  | nil => rfl
  | cons c q ih =>
    have notQuote : c ≠ '"' := fun quote => noQuote (quote ▸ List.mem_cons_self ..)
    rw [List.cons_append, quoted_cons notQuote, ih (fun mem => noQuote (List.mem_cons_of_mem c mem))]

theorem tokenizeChars_quoted (q : List Char) (noQuote : '"' ∉ q) (rest : List Char) (fuel : Nat) :
    tokenizeChars (fuel + 1) ('"' :: (q ++ '"' :: rest)) = String.ofList q :: tokenizeChars fuel rest := by
  have kept : ('"' :: (q ++ '"' :: rest)).dropWhile isSeparator = '"' :: (q ++ '"' :: rest) := by
    rw [List.dropWhile_cons, if_neg (by decide)]
  rw [tokenizeChars, kept]
  simp only [quoted_append q noQuote rest]

theorem tokenize_eq (line : String) : tokenize line = tokenizeChars (line.length + 1) line.toList :=
  rfl

theorem length_quoted_le (cs : List Char) : (quoted cs).2.length ≤ cs.length := by
  induction cs with
  | nil => simp [quoted]
  | cons c rest ih =>
    by_cases quote : c = '"'
    · subst quote
      simp [quoted]
    · rw [quoted_cons quote, List.length_cons]
      exact Nat.le_succ_of_le ih

theorem length_bare_le (cs : List Char) : (bare cs).2.1.length ≤ cs.length := by
  induction cs with
  | nil => simp [bare]
  | cons c rest ih =>
    rw [bare.eq_def]
    split
    · simp
    · simp
    · rename_i d more _ same
      obtain ⟨rfl, rfl⟩ := List.cons.inj same
      split
      · simp
      · exact Nat.le_succ_of_le ih

theorem bare_cons_word {c : Char} (notSeparator : isSeparator c = false) (rest : List Char)
    (notComment : ¬(c = '/' ∧ rest.head? = some '/')) :
    bare (c :: rest) = (c :: (bare rest).1, (bare rest).2.1, (bare rest).2.2) := by
  rw [bare.eq_def]
  split
  · rename_i empty
    exact absurd empty (List.cons_ne_nil _ _)
  · rename_i more comment
    obtain ⟨rfl, rfl⟩ := List.cons.inj comment
    exact absurd ⟨rfl, rfl⟩ notComment
  · rename_i d more _ same
    obtain ⟨rfl, rfl⟩ := List.cons.inj same
    rw [if_neg (by simp [notSeparator])]

theorem length_bare_lt {c : Char} (notSeparator : isSeparator c = false) (rest : List Char)
    (going : (bare (c :: rest)).2.2 = false) : (bare (c :: rest)).2.1.length < rest.length + 1 := by
  by_cases comment : c = '/' ∧ rest.head? = some '/'
  · obtain ⟨rfl, second⟩ := comment
    obtain ⟨more, rfl⟩ : ∃ more, rest = '/' :: more := by
      cases rest with
      | nil => exact absurd second (by simp)
      | cons d more => exact ⟨more, by simpa using second⟩
    exact absurd going (by simp [bare])
  · rw [bare_cons_word notSeparator rest comment]
    exact Nat.lt_succ_of_le (length_bare_le rest)

/-- Every argument consumes a character, so any fuel above the length of the line reads all of
it. -/
theorem tokenizeChars_fuel (cs : List Char) (f g : Nat) (enoughF : cs.length < f) (enoughG : cs.length < g) :
    tokenizeChars f cs = tokenizeChars g cs := by
  induction f generalizing cs g with
  | zero => omega
  | succ f ih =>
    obtain ⟨g, rfl⟩ : ∃ g', g = g' + 1 := ⟨g - 1, by omega⟩
    have skipped := List.length_dropWhile_le isSeparator cs
    simp only [tokenizeChars]
    split
    · rfl
    · rename_i rest start
      rw [start, List.length_cons] at skipped
      have := length_quoted_le rest
      rw [ih _ g (by omega) (by omega)]
    · rename_i start nonempty _
      obtain ⟨c, rest, skip⟩ := List.exists_cons_of_ne_nil nonempty
      -- the skipped separators leave a word that starts with something else
      have notSeparator : isSeparator c = false := by
        simpa [skip] using List.head_dropWhile_not isSeparator (by simp [skip] : cs.dropWhile isSeparator ≠ [])
      rw [skip, List.length_cons] at skipped
      rw [skip]
      split
      · rfl
      · rename_i going
        have := length_bare_lt notSeparator rest (by simpa using going)
        rw [ih _ g (lt_of_lt_of_le this (by omega)) (lt_of_lt_of_le this (by omega))]

theorem tokenizeChars_of_length_lt (cs : List Char) (fuel : Nat) (enough : cs.length < fuel) :
    tokenizeChars fuel cs = tokenize (String.ofList cs) := by
  rw [tokenize_eq, String.toList_ofList, String.length_ofList]
  exact tokenizeChars_fuel cs fuel _ enough (Nat.lt_succ_self _)

theorem tokenize_word (word rest : String) (nonempty : word.toList ≠ [])
    (plain : ∀ c ∈ word.toList, Plain c) (ends : ∀ c ∈ rest.toList.head?, isSeparator c = true) :
    tokenize (word ++ rest) = word :: tokenize rest := by
  have enough : rest.toList.length < word.length + rest.length := by
    have : 0 < word.toList.length := List.length_pos_iff.mpr nonempty
    simp only [String.length] at this ⊢
    omega
  rw [tokenize_eq, String.toList_append, String.length_append, tokenizeChars_word _ nonempty plain _ ends,
    String.ofList_toList, tokenizeChars_of_length_lt _ _ enough, String.ofList_toList]

theorem tokenize_separators (gap rest : String) (separators : ∀ c ∈ gap.toList, isSeparator c = true) :
    tokenize (gap ++ rest) = tokenize rest := by
  have skip : ∀ (cs : List Char), (∀ c ∈ cs, isSeparator c = true) → ∀ fuel,
      tokenizeChars (fuel + 1) (cs ++ rest.toList) = tokenizeChars (fuel + 1) rest.toList := by
    intro cs
    induction cs with
    | nil => exact fun _ _ => rfl
    | cons c cs ih =>
      intro all fuel
      rw [List.cons_append, tokenizeChars_separator (all c (List.mem_cons_self ..)),
        ih (fun d mem => all d (List.mem_cons_of_mem c mem))]
  have enough : rest.toList.length < (gap ++ rest).length + 1 := by
    simp only [String.length, String.toList_append, List.length_append]
    omega
  rw [tokenize_eq, String.toList_append, skip _ separators, tokenizeChars_of_length_lt _ _ enough,
    String.ofList_toList]

theorem tokenize_quoted (q rest : String) (noQuote : '"' ∉ q.toList) :
    tokenize ("\"" ++ (q ++ ("\"" ++ rest))) = q :: tokenize rest := by
  have chars : ("\"" ++ (q ++ ("\"" ++ rest))).toList = '"' :: (q.toList ++ '"' :: rest.toList) := by
    simp
  have enough : rest.toList.length < ("\"" ++ (q ++ ("\"" ++ rest))).length := by
    simp only [String.length, chars, List.length_cons, List.length_append]
    omega
  rw [tokenize_eq, chars, tokenizeChars_quoted _ noQuote, String.ofList_toList,
    tokenizeChars_of_length_lt _ _ enough, String.ofList_toList]

end Tokenize

section Scanners

/-- Skipping one argument: a bare word runs up to the whitespace after it, and that whitespace is
dropped with the rest's leading whitespace. -/
theorem argsFrom_one (w : List Char) (nonempty : w ≠ []) (plain : ∀ c ∈ w, Plain c)
    {c : Char} (space : isWhitespace c = true) (rest : List Char) :
    argsFrom (String.ofList (w ++ c :: rest)) 1 = String.ofList (rest.dropWhile isWhitespace) := by
  obtain ⟨d, w', rfl⟩ := List.exists_cons_of_ne_nil nonempty
  obtain ⟨notSeparator, notQuote, -⟩ := plain d (List.mem_cons_self ..)
  have notSpace : ∀ e ∈ d :: w', isWhitespace e = false := fun e mem => by
    have := (plain e mem).1
    simp only [isSeparator, Bool.or_eq_false_iff] at this
    exact this.1
  have start : (d :: w' ++ c :: rest).dropWhile isWhitespace = d :: w' ++ c :: rest := by
    rw [List.cons_append, List.dropWhile_cons, if_neg (by simp [notSpace d (List.mem_cons_self ..)])]
  have word : (d :: w' ++ c :: rest).dropWhile (fun e => !isWhitespace e) = c :: rest := by
    rw [List.dropWhile_append_of_pos (fun e mem => by simp [notSpace e mem]), List.dropWhile_cons,
      if_neg (by simp [space])]
  have skip : skipArg (d :: w' ++ c :: rest) = c :: rest := by
    rw [List.cons_append, skipArg.eq_def]
    split
    · rename_i quote
      exact absurd (List.cons.inj quote).1 notQuote
    · rw [← List.cons_append, word]
  rw [argsFrom, String.toList_ofList, start, argsFromChars, skip, List.dropWhile_cons, if_pos space,
    argsFromChars]

theorem trimEnd_of_getLast (s : String) (last : ∀ c ∈ s.toList.getLast?, isWhitespace c = false) :
    trimEnd s = s := by
  rw [trimEnd]
  match h : s.toList.reverse with
  | [] =>
    rw [List.dropWhile_nil, List.reverse_nil, ← List.reverse_eq_nil_iff.mp h, String.ofList_toList]
  | c :: more =>
    have ending : isWhitespace c = false := last c (by
      rw [← List.head?_reverse, h]
      rfl)
    rw [List.dropWhile_cons, if_neg (by simp [ending]), ← h, List.reverse_reverse, String.ofList_toList]

/-- Lines laid out one after another, each ended by a newline, read back as themselves when none
holds a newline or ends with a carriage return. -/
theorem lines_join (ls : List String) (noBreak : ∀ l ∈ ls, '\n' ∉ l.toList)
    (noReturn : ∀ l ∈ ls, l.toList.getLast? ≠ some '\r') :
    lines (String.join (ls.map (· ++ "\n"))) = ls := by
  -- the text is the lines and a final empty part joined by newlines
  have layout : (String.join (ls.map (· ++ "\n"))).toList =
      ['\n'].intercalate (ls.map String.toList ++ [[]]) := by
    induction ls with
    | nil => rfl
    | cons l ls ih =>
      rw [List.map_cons, String.join_cons, String.toList_append, String.toList_append,
        ih (fun l mem => noBreak l (List.mem_cons_of_mem _ mem))
          (fun l mem => noReturn l (List.mem_cons_of_mem _ mem)),
        List.map_cons, List.cons_append, List.intercalate_cons_of_ne_nil (by simp)]
      simp
  have split : (String.join (ls.map (· ++ "\n"))).toList.splitOn '\n' = ls.map String.toList ++ [[]] := by
    rw [layout, List.splitOn_intercalate]
    · intro l mem
      rcases List.mem_append.mp mem with line | final
      · obtain ⟨l', mem', rfl⟩ := List.mem_map.mp line
        exact noBreak l' mem'
      · rw [List.mem_singleton.mp final]
        exact List.not_mem_nil
    · simp
  have kept : ∀ l ∈ ls, dropCarriageReturn l = l := fun l mem => by
    rw [dropCarriageReturn, if_neg (noReturn l mem)]
  simp only [lines, split, List.map_append, List.map_map, List.map_singleton]
  rw [List.dropLast_concat, List.getLastD_concat, String.ofList_nil, String.isEmpty_iff.mpr rfl,
    if_pos rfl, List.append_nil]
  have roundTrip : (String.ofList ∘ String.toList) = id := funext fun _ => String.ofList_toList
  rw [roundTrip, List.map_id]
  conv_rhs => rw [← List.map_id ls]
  exact List.map_congr_left kept

end Scanners

section Integers

theorem foldlM_digits (cs : List Char) (digits : ∀ c ∈ cs, c.isDigit = true) (acc : Nat) :
    cs.foldlM (fun acc c => if c.isDigit then some (acc * 10 + (c.toNat - 48)) else none) acc =
      some (Nat.ofDigitChars 10 cs acc) := by
  induction cs generalizing acc with
  | nil => rfl
  | cons c cs ih =>
    rw [List.foldlM_cons, if_pos (digits c (List.mem_cons_self ..)), Option.bind_eq_bind, Option.bind_some,
      ih (fun d mem => digits d (List.mem_cons_of_mem c mem)), Nat.ofDigitChars_cons, Nat.mul_comm]
    rfl

theorem digitsValue_eq (cs : List Char) (nonempty : cs ≠ []) (digits : ∀ c ∈ cs, c.isDigit = true) :
    digitsValue cs = some (Nat.ofDigitChars 10 cs 0) := by
  rw [digitsValue, if_neg (by simpa using nonempty), foldlM_digits cs digits]

theorem plain_of_isDigit {c : Char} (digit : c.isDigit = true) : Plain c := by
  have bounds := Char.isDigit_iff_toNat.mp digit
  simp only [Char.reduceToNat] at bounds
  refine ⟨?_, fun quote => ?_, fun slash => ?_⟩
  · simp only [isSeparator, isWhitespace, isControl, Bool.or_eq_false_iff, decide_eq_false_iff_not]
    omega
  · rw [quote] at bounds
    exact absurd bounds (by decide)
  · rw [slash] at bounds
    exact absurd bounds (by decide)

theorem parseInteger_of_digits (signed : Bool) (s : String) (nonempty : s.toList ≠ [])
    (digits : ∀ c ∈ s.toList, c.isDigit = true) :
    parseInteger signed s = some (Nat.ofDigitChars 10 s.toList 0 : Int) := by
  rw [parseInteger]
  split
  · rename_i rest start
    have := digits '+' (by rw [start]; exact List.mem_cons_self ..)
    exact absurd this (by decide)
  · rename_i rest start
    have := digits '-' (by rw [start]; exact List.mem_cons_self ..)
    exact absurd this (by decide)
  · rw [digitsValue_eq _ nonempty digits]
    rfl

theorem parseInteger_repr (signed : Bool) (n : Nat) : parseInteger signed n.repr = some (n : Int) := by
  have digits : ∀ c ∈ n.repr.toList, c.isDigit = true := fun c mem => by
    rw [Nat.toList_repr] at mem
    exact Nat.isDigit_of_mem_toDigits (by decide) (by decide) mem
  rw [parseInteger_of_digits signed _ (by rw [Nat.toList_repr]; exact Nat.toDigits_ne_nil) digits,
    Nat.toList_repr, Nat.ofDigitChars_ten_toDigits]

theorem toList_toString_negSucc (n : Nat) :
    (toString (Int.negSucc n)).toList = '-' :: Nat.toDigits 10 (n + 1) := by
  show ("-" ++ Nat.repr (n + 1)).toList = _
  rw [String.toList_append, Nat.toList_repr]
  rfl

theorem parseInteger_of_minus (s : String) (rest : List Char) (start : s.toList = '-' :: rest) :
    parseInteger true s = (digitsValue rest).map fun n => -(n : Int) := by
  rw [parseInteger]
  split
  · rename_i more plus
    rw [start] at plus
    exact absurd (List.cons.inj plus).1 (by decide)
  · rename_i more minus
    rw [start] at minus
    rw [(List.cons.inj minus).2, if_pos rfl]
  · rename_i other notMinus
    exact absurd (start ▸ rfl) (notMinus rest)

theorem parseInteger_toString (i : Int) : parseInteger true (toString i) = some i := by
  cases i with
  | ofNat n => exact parseInteger_repr true n
  | negSucc n =>
    have digits : ∀ c ∈ Nat.toDigits 10 (n + 1), c.isDigit = true :=
      fun c mem => Nat.isDigit_of_mem_toDigits (by decide) (by decide) mem
    rw [parseInteger_of_minus _ _ (toList_toString_negSucc n), digitsValue_eq _ Nat.toDigits_ne_nil digits,
      Nat.ofDigitChars_ten_toDigits]
    rfl

theorem parseInt32_toString (x : Int32) : parseInt32 (toString x) = some x := by
  have low := x.le_toInt
  have high := x.toInt_lt
  show (parseInteger true (toString x.toInt)).bind _ = some x
  rw [parseInteger_toString, Option.bind_some, if_pos ⟨by simpa using low, by simpa using high⟩,
    Int32.ofInt_toInt]

theorem parseInt64_toString (c : UInt32) : parseInt64 (toString c) = some (Int64.ofNat c.toNat) := by
  have below := c.toNat_lt
  have bound : Int.pow 2 63 = 9223372036854775808 := rfl
  show (parseInteger true c.toNat.repr).bind _ = _
  rw [parseInteger_repr, Option.bind_some, bound, if_pos ⟨by omega, by omega⟩]
  rfl

theorem plain_of_toString (i : Int) : ∀ c ∈ (toString i).toList, Plain c := by
  intro c mem
  cases i with
  | ofNat n =>
    rw [show toString (Int.ofNat n) = n.repr from rfl, Nat.toList_repr] at mem
    exact plain_of_isDigit (Nat.isDigit_of_mem_toDigits (by decide) (by decide) mem)
  | negSucc n =>
    rw [toList_toString_negSucc] at mem
    rcases List.mem_cons.mp mem with rfl | mem
    · decide
    · exact plain_of_isDigit (Nat.isDigit_of_mem_toDigits (by decide) (by decide) mem)

end Integers

end Text

namespace InfoString

theorem toList_render (info : InfoString) :
    (render info).toList = (info.pairs.flatMap fun kv => [kv.1.toList, kv.2.toList]).flatMap ('\\' :: ·) := by
  -- the text is built by a fold from the empty text
  have fold : ∀ (pairs : List (String × String)) (acc : String),
      (pairs.foldl (fun acc (kv : String × String) => acc ++ "\\" ++ kv.1 ++ "\\" ++ kv.2) acc).toList =
        acc.toList ++ (pairs.flatMap fun kv => [kv.1.toList, kv.2.toList]).flatMap ('\\' :: ·) := by
    intro pairs
    induction pairs with
    | nil => simp
    | cons kv pairs ih =>
      intro acc
      rw [List.foldl_cons, ih]
      simp
  exact fold info.pairs ""

theorem flatMap_backslash (parts : List (List Char)) (nonempty : parts ≠ []) :
    parts.flatMap ('\\' :: ·) = '\\' :: ['\\'].intercalate parts := by
  induction parts with
  | nil => exact absurd rfl nonempty
  | cons part rest ih =>
    cases rest with
    | nil => simp
    | cons next more =>
      rw [List.flatMap_cons, ih (List.cons_ne_nil _ _), List.intercalate_cons_cons]
      simp

theorem pairUp_flatMap (pairs : List (String × String)) :
    pairUp (pairs.flatMap fun kv => [kv.1, kv.2]) = pairs := by
  induction pairs with
  | nil => rfl
  | cons kv pairs ih =>
    rw [List.flatMap_cons]
    simp only [List.cons_append, List.nil_append, pairUp, ih]

/-- An info string whose keys and values hold no backslash parses back from its text. -/
theorem parse_render (info : InfoString)
    (noBackslash : ∀ kv ∈ info.pairs, '\\' ∉ kv.1.toList ∧ '\\' ∉ kv.2.toList) :
    parse (render info) = info := by
  obtain ⟨pairs⟩ := info
  cases pairs with
  | nil => rfl
  | cons kv rest =>
    set parts := ((kv :: rest).flatMap fun kv => [kv.1.toList, kv.2.toList]) with def_parts
    have nonempty : parts ≠ [] := by simp [def_parts]
    have text : (render ⟨kv :: rest⟩).toList = '\\' :: ['\\'].intercalate parts := by
      rw [toList_render, flatMap_backslash _ nonempty]
    have separate : ∀ part ∈ parts, '\\' ∉ part := by
      intro part mem
      obtain ⟨kv', mem', inPair⟩ := List.mem_flatMap.mp mem
      rcases List.mem_pair.mp inPair with rfl | rfl
      · exact (noBackslash kv' mem').1
      · exact (noBackslash kv' mem').2
    have named : parts.map String.ofList = (kv :: rest).flatMap fun kv => [kv.1, kv.2] := by
      simp [def_parts, List.map_flatMap]
    rw [parse, body, text]
    simp only
    rw [List.splitOn_intercalate _ separate nonempty, named, pairUp_flatMap]

/-- Info strings made from the empty one by set calls whose keys and values hold no NUL. -/
inductive Built : InfoString → Prop
  | empty : Built {}
  | set {info : InfoString} (key value : String) (keyFree : Char.ofNat 0 ∉ key.toList)
      (valueFree : Char.ofNat 0 ∉ value.toList) : Built info → Built (info.set key value)

/-- A character an info string may hold: no backslash, no double quote and no NUL. -/
def Allowed (c : Char) : Prop :=
  c ≠ '\\' ∧ c ≠ '"' ∧ c ≠ Char.ofNat 0

theorem allowed_clean (s : String) (free : Char.ofNat 0 ∉ s.toList) : ∀ c ∈ (clean s).toList, Allowed c := by
  intro c mem
  rw [clean, String.toList_ofList, List.mem_filter] at mem
  obtain ⟨inside, kept⟩ := mem
  simp only [decide_eq_true_eq] at kept
  exact ⟨kept.1, kept.2.1, fun null => free (null ▸ inside)⟩

theorem Built.allowed {info : InfoString} (built : info.Built) :
    ∀ kv ∈ info.pairs, (∀ c ∈ kv.1.toList, Allowed c) ∧ ∀ c ∈ kv.2.toList, Allowed c := by
  induction built with
  | empty => exact fun kv mem => absurd mem List.not_mem_nil
  | set key value keyFree valueFree _ ih =>
    intro kv mem
    rw [InfoString.set] at mem
    split at mem
    · exact ih kv (List.mem_of_mem_filter mem)
    · rcases List.mem_append.mp mem with old | new
      · exact ih kv (List.mem_of_mem_filter old)
      · rw [List.mem_singleton.mp new]
        exact ⟨allowed_clean key keyFree, allowed_clean value valueFree⟩

theorem Built.mem_render {info : InfoString} (built : info.Built) :
    ∀ c ∈ (render info).toList, c = '\\' ∨ Allowed c := by
  intro c mem
  rw [toList_render] at mem
  obtain ⟨part, inParts, inPart⟩ := List.mem_flatMap.mp mem
  rcases List.mem_cons.mp inPart with rfl | inside
  · exact Or.inl rfl
  · obtain ⟨kv, inPairs, isPart⟩ := List.mem_flatMap.mp inParts
    rcases List.mem_pair.mp isPart with rfl | rfl
    · exact Or.inr ((built.allowed kv inPairs).1 c inside)
    · exact Or.inr ((built.allowed kv inPairs).2 c inside)

theorem Built.parse_render {info : InfoString} (built : info.Built) : parse (render info) = info :=
  InfoString.parse_render info fun kv mem =>
    ⟨fun inKey => ((built.allowed kv mem).1 _ inKey).1 rfl, fun inValue => ((built.allowed kv mem).2 _ inValue).1 rfl⟩

end InfoString

end Netcode
