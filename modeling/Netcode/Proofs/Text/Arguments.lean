import Netcode.Proofs.Text.Tokens
import Netcode.OutOfBand

set_option autoImplicit false

namespace Netcode

namespace Text

/-- A stretch of a line that both scans split alike: every control character in it is whitespace,
and every `//` in it starts it or follows whitespace. -/
structure Spaced (cs : List Char) : Prop where
  controls : ∀ c ∈ cs, isControl c = true → isWhitespace c = true
  comments : ∀ x ∈ cs, [x, '/', '/'] <:+: cs → isWhitespace x = true

-- Characters form a finite type here, and the default instance for a bounded quantifier would try
-- every one of them; the list's own check runs over its members only.
instance (cs : List Char) : Decidable (Spaced cs) :=
  have : Decidable ((∀ c ∈ cs, isControl c = true → isWhitespace c = true) ∧
      ∀ x ∈ cs, [x, '/', '/'] <:+: cs → isWhitespace x = true) :=
    @instDecidableAnd _ _ (List.decidableBAll _ cs) (List.decidableBAll _ cs)
  decidable_of_iff ((∀ c ∈ cs, isControl c = true → isWhitespace c = true) ∧
      ∀ x ∈ cs, [x, '/', '/'] <:+: cs → isWhitespace x = true)
    ⟨fun ⟨controls, comments⟩ => ⟨controls, comments⟩, fun ⟨controls, comments⟩ => ⟨controls, comments⟩⟩

section Spaced

variable {cs : List Char}

theorem Spaced.suffix (spaced : Spaced cs) {rest : List Char} (suffix : rest <:+ cs) : Spaced rest where
  controls c mem := spaced.controls c (suffix.subset mem)
  comments x mem inside := spaced.comments x (suffix.subset mem) (inside.trans suffix.isInfix)

theorem Spaced.isSeparator_eq (spaced : Spaced cs) {c : Char} (mem : c ∈ cs) :
    isSeparator c = isWhitespace c := by
  by_cases control : isControl c = true
  · simp [isSeparator, control, spaced.controls c mem control]
  · simp [isSeparator, control]

theorem Spaced.dropWhile_separator (spaced : Spaced cs) :
    cs.dropWhile isSeparator = cs.dropWhile isWhitespace := by
  induction cs with
  | nil => rfl
  | cons c rest ih =>
    rw [List.dropWhile_cons, List.dropWhile_cons, spaced.isSeparator_eq List.mem_cons_self,
      ih (spaced.suffix (List.suffix_cons c rest))]

/-- A bare argument on a spaced stretch that no comment opens runs to the next whitespace: a `//`
inside it would follow one of its characters. -/
theorem Spaced.bare_eq (spaced : Spaced cs) (noComment : ∀ more, cs ≠ '/' :: '/' :: more) :
    (bare cs).2.2 = false ∧ (bare cs).2.1 = cs.dropWhile fun c => !isWhitespace c := by
  induction cs with
  | nil => exact ⟨rfl, rfl⟩
  | cons c rest ih =>
    by_cases separator : isSeparator c = true
    · have space : isWhitespace c = true := by rw [← spaced.isSeparator_eq List.mem_cons_self]; exact separator
      have notSlash : c ≠ '/' := fun slash => by rw [slash] at separator; exact absurd separator (by decide)
      rw [bare_cons notSlash, if_pos separator, List.dropWhile_cons, if_neg (by simp [space])]
      exact ⟨rfl, rfl⟩
    · have notSpace : isWhitespace c = false := by
        rw [← spaced.isSeparator_eq List.mem_cons_self]
        simpa using separator
      have notOpening : ¬(c = '/' ∧ rest.head? = some '/') := by
        rintro ⟨rfl, second⟩
        obtain ⟨more, rfl⟩ : ∃ more, rest = '/' :: more := by
          cases rest with
          | nil => cases second
          | cons d more => exact ⟨more, by simpa using second⟩
        exact noComment more rfl
      -- a comment right after this character would follow a character of the argument
      have restOpen : ∀ more, rest ≠ '/' :: '/' :: more := by
        rintro more rfl
        have glued : [c, '/', '/'] <:+: c :: '/' :: '/' :: more := ⟨[], more, rfl⟩
        rw [spaced.comments c List.mem_cons_self glued] at notSpace
        cases notSpace
      obtain ⟨ended, after⟩ := ih (spaced.suffix (List.suffix_cons c rest)) restOpen
      rw [bare_cons_word (by simpa using separator) rest notOpening, List.dropWhile_cons, if_pos (by simp [notSpace])]
      exact ⟨ended, after⟩

end Spaced

theorem quoted_snd_eq (rest : List Char) : (quoted rest).2 = skipArg ('"' :: rest) := by
  induction rest with
  | nil => rfl
  | cons c more ih =>
    by_cases quote : c = '"'
    · subst quote
      rfl
    · rw [quoted_cons quote, ih]
      simp only [skipArg, List.dropWhile_cons, ne_eq, quote, not_false_eq_true, decide_true, if_true]

theorem skipArg_suffix (cs : List Char) : skipArg cs <:+ cs := by
  unfold skipArg
  split
  · rename_i rest
    split
    · exact List.nil_suffix
    · rename_i first after closing
      have inside : first :: after <:+ rest := closing ▸ List.dropWhile_suffix _
      exact ((List.suffix_cons first after).trans inside).trans (List.suffix_cons _ _)
  · exact List.dropWhile_suffix _

theorem tokenize_dropWhile (cs : List Char) :
    tokenize (String.ofList (cs.dropWhile isSeparator)) = tokenize (String.ofList cs) := by
  have parts : cs.takeWhile isSeparator ++ cs.dropWhile isSeparator = cs := List.takeWhile_append_dropWhile
  conv_rhs => rw [← parts]
  rw [String.ofList_append, tokenize_separators _ _ fun c mem => by
    rw [String.toList_ofList] at mem
    exact List.mem_takeWhile_imp mem]

theorem head_dropWhile_whitespace (cs : List Char) :
    ∀ c ∈ (cs.dropWhile isWhitespace).head?, isWhitespace c = false := by
  intro c first
  have stopped := List.head?_dropWhile_not isWhitespace cs
  rw [show (cs.dropWhile isWhitespace).head? = some c from first] at stopped
  exact stopped

/-- One argument skipped by hand leaves the arguments the tokenizer reads after the first. -/
theorem Spaced.tokenize_skipArg {cs : List Char} (spaced : Spaced cs)
    (start : ∀ c ∈ cs.head?, isWhitespace c = false) (nonempty : tokenize (String.ofList cs) ≠ []) :
    ∃ arg, tokenize (String.ofList cs) = arg :: tokenize (String.ofList (skipArg cs)) := by
  cases cs with
  | nil => exact absurd rfl nonempty
  | cons c rest =>
    have notSeparator : isSeparator c = false := by
      rw [spaced.isSeparator_eq List.mem_cons_self]
      exact start c rfl
    have kept : (c :: rest).dropWhile isSeparator = c :: rest := by
      rw [List.dropWhile_cons, if_neg (by simp [notSeparator])]
    have fuel : tokenize (String.ofList (c :: rest)) = tokenizeChars (rest.length + 2) (c :: rest) := by
      rw [tokenize_eq, String.toList_ofList, String.length_ofList, List.length_cons]
    -- a comment that opens the stretch leaves no argument
    by_cases comment : ∃ more, c :: rest = '/' :: '/' :: more
    · obtain ⟨more, opens⟩ := comment
      exact absurd (by rw [fuel, opens]; rfl) nonempty
    rw [fuel, tokenizeChars, kept]
    split
    · rename_i empty
      exact absurd empty (List.cons_ne_nil _ _)
    · -- a quoted argument: what follows its closing quote is what skipping it leaves
      rename_i more opening
      obtain ⟨rfl, rfl⟩ := List.cons.inj opening
      refine ⟨String.ofList (quoted rest).1, ?_⟩
      show String.ofList (quoted rest).1 :: tokenizeChars (rest.length + 1) (quoted rest).2 = _
      rw [tokenizeChars_of_length_lt _ _ (Nat.lt_succ_of_le (length_quoted_le rest)), quoted_snd_eq]
    · -- a bare argument ends at the whitespace that skipping it stops at
      rename_i notEmpty notQuote
      have notQuote' : c ≠ '"' := fun quote => notQuote rest (by rw [quote])
      obtain ⟨ended, after⟩ := spaced.bare_eq fun more opens => comment ⟨more, opens⟩
      have skip : skipArg (c :: rest) = (c :: rest).dropWhile fun c => !isWhitespace c := by
        rw [skipArg.eq_def]
        split
        · rename_i more opening
          exact absurd (List.cons.inj opening).1 notQuote'
        · rfl
      have shorter : ((c :: rest).dropWhile fun c => !isWhitespace c).length < rest.length + 1 := by
        rw [List.dropWhile_cons, if_pos (by simp [start c rfl])]
        exact Nat.lt_succ_of_le (List.length_dropWhile_le _ _)
      rcases scanned : bare (c :: rest) with ⟨arg, after', flag⟩
      rw [scanned] at ended after
      dsimp only at ended after
      subst ended after
      refine ⟨String.ofList arg, ?_⟩
      show String.ofList arg :: tokenizeChars (rest.length + 1) _ = _
      rw [tokenizeChars_of_length_lt _ _ shorter, skip]

theorem Spaced.tokenize_argsFromChars (n : Nat) {cs : List Char} (spaced : Spaced cs)
    (start : ∀ c ∈ cs.head?, isWhitespace c = false) (within : n ≤ (tokenize (String.ofList cs)).length) :
    tokenize (String.ofList (argsFromChars n cs)) = (tokenize (String.ofList cs)).drop n := by
  induction n generalizing cs with
  | zero => rfl
  | succ n ih =>
    obtain ⟨arg, first⟩ := spaced.tokenize_skipArg start fun empty => by
      rw [empty] at within
      exact absurd within (by simp)
    have rest := spaced.suffix (skipArg_suffix cs)
    -- both scans skip the whitespace before the next argument
    have next : tokenize (String.ofList ((skipArg cs).dropWhile isWhitespace)) =
        tokenize (String.ofList (skipArg cs)) := by
      rw [← rest.dropWhile_separator, tokenize_dropWhile]
    rw [first, List.length_cons] at within
    rw [argsFromChars, ih (rest.suffix (List.dropWhile_suffix _)) (head_dropWhile_whitespace _)
      (by rw [next]; omega), next, first, List.drop_succ_cons]

end Text

namespace OutOfBand.Response

theorem ofText_eq_dropError_iff (text m : String) :
    ofText text = .ok (.dropError m) ↔ (Text.tokenize text).head? = some "droperror" ∧ m = Text.argsFrom text 1 := by
  unfold ofText
  -- each branch but the drop answers something else, or fails
  split <;> simp_all [pure, Except.pure]
  case h_2 => split <;> simp
  case h_5 => exact eq_comm
  case h_7 =>
    unfold statusOf
    split <;> simp

end OutOfBand.Response

namespace Text

/-- On a spaced line, the text after `n` arguments skipped by hand reads as the tokenizer's
arguments after the `n`-th. -/
theorem tokenize_argsFrom (line : String) (n : Nat) (spaced : Spaced line.toList)
    (within : n ≤ (tokenize line).length) :
    tokenize (argsFrom line n) = (tokenize line).drop n ∧
      ∀ m, OutOfBand.Response.ofText line = .ok (.dropError m) ↔
        (tokenize line).head? = some "droperror" ∧ m = argsFrom line 1 := by
  have trimmed : tokenize (String.ofList (line.toList.dropWhile isWhitespace)) = tokenize line := by
    rw [← spaced.dropWhile_separator, tokenize_dropWhile, String.ofList_toList]
  refine ⟨?_, fun m => OutOfBand.Response.ofText_eq_dropError_iff line m⟩
  rw [← trimmed] at within ⊢
  exact (spaced.suffix (List.dropWhile_suffix _)).tokenize_argsFromChars n (head_dropWhile_whitespace _) within

/-- A drop with a quoted reason: both arguments after the command are skipped, and the last one
is left. -/
theorem tokenize_argsFrom_quotedReason :
    Spaced "droperror \"bad  name\" kicked".toList ∧ 2 ≤ (tokenize "droperror \"bad  name\" kicked").length ∧
      (tokenize (argsFrom "droperror \"bad  name\" kicked" 2) =
          (tokenize "droperror \"bad  name\" kicked").drop 2 ∧
        ∀ m, OutOfBand.Response.ofText "droperror \"bad  name\" kicked" = .ok (.dropError m) ↔
          (tokenize "droperror \"bad  name\" kicked").head? = some "droperror" ∧
            m = argsFrom "droperror \"bad  name\" kicked" 1) :=
  ⟨by decide +kernel, by decide +kernel, tokenize_argsFrom _ 2 (by decide +kernel) (by decide +kernel)⟩

/-- Off spaced lines the scans part: a control character splits words for the tokenizer only, and
`//` inside a word ends the tokenizer's line but not the hand scan. -/
theorem argsFrom_missesSeparators :
    (tokenize "a\x01b" = ["a", "b"] ∧ argsFrom "a\x01b" 1 = "" ∧
        tokenize (argsFrom "a\x01b" 1) ≠ (tokenize "a\x01b").drop 1) ∧
      (tokenize "a//b c" = ["a"] ∧ argsFrom "a//b c" 1 = "c" ∧
        tokenize (argsFrom "a//b c" 1) ≠ (tokenize "a//b c").drop 1) := by
  decide +kernel

end Text

end Netcode
